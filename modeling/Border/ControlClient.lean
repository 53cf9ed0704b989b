/-
# The control client and the HTTP side of the control server

Model of `pkg/controlclient/controlclient.go` and of the part of
`pkg/controlserver/controlserver.go` that reads HTTP requests and writes HTTP responses:
`configureMux`, `handle` and `handlePut`, with `EncryptResponse` of `pkg/api/api.go`.

A client asks for a nonce, puts it into its request, encrypts the request, sends it, and
decrypts the answer; an exchange takes two HTTP requests, and anything may happen to the server
before each of them (`Turn.before`).  `go-jose` is a parameter (`Jose`) with one law: what is
encrypted with a key can be parsed and decrypted with that key.

* `exchange_completes` : an exchange whose nonce is left alone for its lifetime comes to its end,
  whatever else the server does in between: the handler runs on the request that was written, and
  the client reads the answer that the handler gave;
* `exchange_echo` : nothing in an answer tells that the server gave it: whoever holds one message
  encrypted with the key completes every exchange of that key without the server.
-/
import Border.ConfigUpdate
import Border.Messages

namespace Border

open GoJson Transition

/-! ## The parameters -/

/-- What is used of `go-jose` and `pkg/josekit`, for keys that are not nil.  The encryption draws
`Coins`. -/
structure Jose where
  Coins : Type
  JWE : Type
  /-- `josekit.GetEncrypter`. -/
  getEncrypter : JSONWebKey → Except String Unit
  encrypt : JSONWebKey → Coins → List UInt8 → Except String JWE
  compactSerialize : JWE → Except String (List UInt8)
  parseEncrypted : List UInt8 → Except String JWE
  decrypt : JSONWebKey → JWE → Except String (List UInt8)

/-- A text is a message encrypted with a key. -/
def Jose.Opens (jose : Jose) (key : JSONWebKey) (text plain : List UInt8) : Prop :=
  ∃ jwe, jose.parseEncrypted text = .ok jwe ∧ jose.decrypt key jwe = .ok plain

/-- The text that encrypting gives. -/
def Jose.Seals (jose : Jose) (key : JSONWebKey) (coins : jose.Coins) (plain text : List UInt8) :
    Prop :=
  ∃ jwe, jose.encrypt key coins plain = .ok jwe ∧ jose.compactSerialize jwe = .ok text

/-- The key is one to encrypt with, and what is encrypted with it can be decrypted with it. -/
structure Jose.Lawful (jose : Jose) (key : JSONWebKey) : Prop where
  usable : jose.getEncrypter key = .ok ()
  seals : ∀ coins plain, ∃ jwe text, jose.encrypt key coins plain = .ok jwe ∧
    jose.compactSerialize jwe = .ok text ∧ jose.Opens key text plain

/-- An HTTP response: the status, and what reading the body gives. -/
structure HTTPResponse where
  statusCode : ℕ
  body : Except String (List UInt8)

/-- What reading a body gives after the context of its request was cancelled. -/
def cancelled (readable : ℕ) (body : Except String (List UInt8)) : Except String (List UInt8) := do
  let byt ← body
  if byt.length ≤ readable then .ok byt else .error "context canceled"

theorem cancelled_ok {readable : ℕ} {byt : List UInt8} (h : byt.length ≤ readable) :
    cancelled readable (.ok byt) = .ok byt := if_pos h

inductive HTTPMethod
  | get
  | put
  deriving DecidableEq, Repr

/-- The network of a client, with all that is behind it as its state: `url.Parse`, and a request
for a path under a base, which may never return. -/
structure HTTPNetwork (σ : Type) where
  /-- The error of `url.Parse`. -/
  parseURL : String → Except String Unit
  /-- How much of a body can be read after the context of its request was cancelled: what has come
  in by then, in any case what came with the headers. -/
  readable : ℕ
  request : HTTPMethod → (base path : String) → List UInt8 → σ →
    Option (Except String HTTPResponse × σ)

/-! ## The client -/

/-- A call of the client: `none` when it does not return. -/
abbrev Session (σ α : Type) := ExceptT Failure (StateT σ Option) α

namespace Session

variable {σ α γ : Type}

/-- An outcome that does not touch the network. -/
def ofExcept (label : String) : Except String α → Session σ α
  | .ok a => pure a
  | .error e => throw (.error (label ++ e))

/-- An HTTP request. -/
def request (label : String) (x : σ → Option (Except String α × σ)) : Session σ α :=
  ExceptT.mk fun s => (x s).map fun r => (r.1.mapError fun e => .error (label ++ e), r.2)

/-- A pointer that is followed. -/
def follow : Option α → Session σ α
  | some a => pure a
  | none => throw nilDereference

/-- Only errors are wrapped. -/
def wrap (label : String) (x : Session σ α) : Session σ α :=
  ExceptT.adapt (Failure.wrap label) x

/-- A session that succeeds. -/
def Succeeds (x : Session σ α) (s : σ) (a : α) (s' : σ) : Prop := x.run s = some (.ok a, s')

end Session

/-- `Client`. -/
structure Client where
  authKey : Option JSONWebKey
  baseURL : String

/-- `FromPeer`. -/
def fromPeer (peer : Peer) : Client := ⟨peer.key, "http://" ++ peer.controlServer⟩

def errAcquireNonce : String := "Could not acquire nonce"
def errMarshal : String := "Could not marshal payload"
def errBadResponse : String := "Invalid response from API server"
def errDecrypt : String := "Could not decrypt response"
def errEncrypt : String := "Could not encrypt payload"

/-- The text of an `errors.Join` of a sentinel and a second error, up to the second. -/
def joined (sentinel : String) : String := sentinel ++ "\n"

/-- A body as text. -/
def bodyText (bytes : List UInt8) : String := (String.fromUTF8? bytes.toByteArray).getD ""

/-- The test of the status after a call; the body of another response is part of the error. -/
def expectOK {σ : Type} (label call : String) (resp : HTTPResponse) : Session σ Unit :=
  if resp.statusCode = 200 then pure ()
  else do
    let byt ← Session.ofExcept label resp.body
    throw (.error ("Status was not OK after " ++ call ++ " call, status was "
      ++ toString resp.statusCode ++ ": " ++ bodyText byt))

/-- `PathNonce` or `PathPeerNonce`. -/
def noncePath (peer : Bool) : String := if peer then "peerNonce" else "nonce"

/-- The type of a request, as `%T` prints it. -/
def Endpoint.typeName : Endpoint → String
  | .authCheck => "*api.AuthCheck"
  | .configUpdate => "*api.ConfigUpdateRequest"
  | .configReload => "*api.ConfigReloadRequest"
  | .peerRegister => "*api.PeerRegistrationRequest"
  | .identifyPublisher => "*api.IdentifyPublisherRequest"
  | .uptime => "*api.UptimeRequest"
  | .ping => "*api.PingRequest"
  | .configChain => "*api.ConfigChainRequest"
  | .configFetch => "*api.ConfigFetchRequest"

/-- What the client and the server have in common: the encryption, the encoding of keys, and the
texts of the errors of `encoding/json`. -/
structure Wire where
  jose : Jose
  codec : KeyCodec
  explain : UnmarshalError → String

section Client

variable {σ : Type} (wire : Wire) (net : HTTPNetwork σ)

/-- `jose.ParseEncrypted` and `Decrypt` with the key of the client. -/
def Client.open (c : Client) (text : List UInt8) : Session σ (List UInt8) := do
  let enc ← Session.ofExcept (joined errDecrypt) (wire.jose.parseEncrypted text)
  let key ← Session.follow c.authKey
  Session.ofExcept (joined errDecrypt) (wire.jose.decrypt key enc)

/-- `GetNonce`. -/
def Client.getNonce (c : Client) (peer : Bool) : Session σ (List UInt8) := do
  Session.ofExcept ("Base URL " ++ quoted c.baseURL ++ " is invalid: ") (net.parseURL c.baseURL)
  let resp ← Session.request (joined errAcquireNonce)
    (net.request .get c.baseURL ("/" ++ noncePath peer) [])
  expectOK (joined errAcquireNonce) "nonce" resp
  let nonce ← Session.ofExcept (joined errAcquireNonce) resp.body
  c.open wire nonce

/-- `PrepareRequest`. -/
def Client.prepareRequest (c : Client) (coins : wire.jose.Coins) (msg : APIRequest)
    (peer : Bool) : Session σ (List UInt8) := do
  let nonce ← Session.wrap "Failed to retrieve nonce: " (c.getNonce wire net peer)
  let key ← Session.follow c.authKey
  Session.ofExcept (joined errEncrypt) (wire.jose.getEncrypter key)
  let byt ← Session.ofExcept (joined errMarshal) (msg.marshal wire.codec nonce)
  let cipherText ← Session.ofExcept (joined errEncrypt) (wire.jose.encrypt key coins byt)
  Session.ofExcept (joined errEncrypt) (wire.jose.compactSerialize cipherText)

/-- `SendRequest`; of the response only what reading its body gives is used.  When it returns, its
deferred `cancel` ends the context of the request, and the body is read after that. -/
def Client.sendRequest (c : Client) (coins : wire.jose.Coins) (msg : APIRequest)
    (peer : Bool) : Session σ (Except String (List UInt8)) := do
  Session.ofExcept ("Base URL " ++ quoted c.baseURL ++ " is invalid: ") (net.parseURL c.baseURL)
  let out ← c.prepareRequest wire net coins msg peer
  let resp ← Session.request (joined errBadResponse)
    (net.request .put c.baseURL ("/" ++ (msg.endpoint.request wire.codec.unmarshal).endpoint) out)
  expectOK (joined errBadResponse) msg.endpoint.typeName resp
  pure (cancelled net.readable resp.body)

/-- `Exchange`. -/
def Client.exchange (c : Client) (coins : wire.jose.Coins) (msg : APIRequest) (peer : Bool) :
    Session σ Response := do
  let body ← Session.wrap "Failed to deliver request: " (c.sendRequest wire net coins msg peer)
  let byt ← Session.ofExcept (joined errBadResponse) body
  let byt ← c.open wire byt
  Session.ofExcept (joined errBadResponse)
    ((decodeResponse wire.codec.unmarshal msg.endpoint byt).mapError wire.explain)

end Client

/-! ## Sessions that succeed -/

namespace Session

variable {σ α γ : Type} {x : Session σ α} {s s' s'' : σ} {a : α}

theorem succeeds_pure (a : α) (s : σ) : Succeeds (pure a) s a s := rfl

theorem succeeds_bind {f : α → Session σ γ} {c : γ} (hx : x.Succeeds s a s')
    (hf : (f a).Succeeds s' c s'') : (x >>= f).Succeeds s c s'' := by
  have hbind : (x >>= f).run s = (x.run s).bind fun r => ExceptT.bindCont f r.1 r.2 := rfl
  rw [Succeeds, hbind, show x.run s = _ from hx]
  exact hf

theorem succeeds_ofExcept {label : String} {r : Except String α} (h : r = .ok a) (s : σ) :
    (ofExcept label r).Succeeds s a s := by
  subst h
  rfl

theorem succeeds_follow {p : Option α} (h : p = some a) (s : σ) :
    (follow p : Session σ α).Succeeds s a s := by
  subst h
  rfl

theorem succeeds_request {label : String} {x : σ → Option (Except String α × σ)}
    (h : x s = some (.ok a, s')) : (request label x).Succeeds s a s' := by
  have hrun : (request label x).run s
      = (x s).map fun r => (r.1.mapError fun e => .error (label ++ e), r.2) := rfl
  rw [Succeeds, hrun, h]
  rfl

theorem succeeds_wrap {label : String} (h : x.Succeeds s a s') :
    (wrap label x).Succeeds s a s' := by
  have hwrap : (wrap label x).run s
      = (x.run s).map fun r => (r.1.mapError (Failure.wrap label), r.2) := by
    show ((x s).bind fun r => some (r.1.mapError (Failure.wrap label), r.2)) = _
    exact Option.map_eq_bind.symm
  rw [Succeeds, hwrap, show x.run s = _ from h]
  rfl

theorem succeeds_expectOK {label call : String} {resp : HTTPResponse} (h : resp.statusCode = 200)
    (s : σ) : (expectOK label call resp).Succeeds s () s := by
  rw [expectOK, if_pos h]
  rfl

theorem of_bind {f : α → Session σ γ} {c : γ} (h : (x >>= f).Succeeds s c s'') :
    ∃ a s', x.Succeeds s a s' ∧ (f a).Succeeds s' c s'' := by
  have hbind : (x >>= f).run s = (x.run s).bind fun r => ExceptT.bindCont f r.1 r.2 := rfl
  rw [Succeeds, hbind] at h
  obtain ⟨⟨r, s'⟩, hx, hr⟩ := Option.bind_eq_some_iff.mp h
  cases r with
  | error e => cases hr
  | ok a => exact ⟨a, s', hx, hr⟩

theorem of_ofExcept {label : String} {r : Except String α} (h : (ofExcept label r).Succeeds s a s') :
    r = .ok a ∧ s' = s := by
  cases r with
  | error e => cases h
  | ok b =>
    cases h
    exact ⟨rfl, rfl⟩

theorem of_follow {p : Option α} (h : (follow p : Session σ α).Succeeds s a s') :
    p = some a ∧ s' = s := by
  cases p with
  | none => cases h
  | some b =>
    cases h
    exact ⟨rfl, rfl⟩

theorem of_request {label : String} {x : σ → Option (Except String α × σ)}
    (h : (request label x).Succeeds s a s') : x s = some (.ok a, s') := by
  obtain ⟨⟨r, t⟩, hx, hr⟩ := Option.map_eq_some_iff.mp h
  cases r with
  | error e => cases hr
  | ok b =>
    cases hr
    exact hx

theorem of_wrap {label : String} (h : (wrap label x).Succeeds s a s') : x.Succeeds s a s' := by
  obtain ⟨⟨r, t⟩, hx, hr⟩ := Option.bind_eq_some_iff.mp h
  cases r with
  | error e => cases hr
  | ok b =>
    cases hr
    exact hx

theorem of_expectOK {label call : String} {resp : HTTPResponse}
    (h : (expectOK label call resp).Succeeds s () s') : resp.statusCode = 200 ∧ s' = s := by
  by_cases hstatus : resp.statusCode = 200
  · rw [expectOK, if_pos hstatus] at h
    cases h
    exact ⟨hstatus, rfl⟩
  · rw [expectOK, if_neg hstatus] at h
    obtain ⟨byt, t, -, h⟩ := of_bind h
    cases h

end Session

section Client

open Session

variable {σ : Type} {wire : Wire} {net : HTTPNetwork σ} {c : Client} {key : JSONWebKey}
  {s s₁ s₂ : σ} {coins : wire.jose.Coins} {peer : Bool}

theorem open_succeeds (hkey : c.authKey = some key) {text plain : List UInt8}
    (h : wire.jose.Opens key text plain) (s : σ) : (c.open wire text).Succeeds s plain s := by
  obtain ⟨jwe, hparse, hdecrypt⟩ := h
  exact succeeds_bind (succeeds_ofExcept hparse s)
    (succeeds_bind (succeeds_follow hkey s) (succeeds_ofExcept hdecrypt s))

/-- A nonce is retrieved from a good response. -/
theorem getNonce_succeeds (hkey : c.authKey = some key) (hurl : net.parseURL c.baseURL = .ok ())
    {text nonce : List UInt8}
    (hget : net.request .get c.baseURL ("/" ++ noncePath peer) [] s = some (.ok ⟨200, .ok text⟩, s₁))
    (hopen : wire.jose.Opens key text nonce) :
    (c.getNonce wire net peer).Succeeds s nonce s₁ :=
  succeeds_bind (succeeds_ofExcept hurl s) (succeeds_bind (succeeds_request hget)
    (succeeds_bind (succeeds_expectOK rfl s₁)
      (succeeds_bind (succeeds_ofExcept rfl s₁) (open_succeeds hkey hopen s₁))))

/-- **A request that can be written is sent as a message that opens to what was written.** -/
theorem prepareRequest_succeeds (coins : wire.jose.Coins) (hjose : wire.jose.Lawful key)
    (hkey : c.authKey = some key)
    {nonce bytes : List UInt8} (hnonce : (c.getNonce wire net peer).Succeeds s nonce s₁)
    {msg : APIRequest} (hmarshal : msg.marshal wire.codec nonce = .ok bytes) :
    ∃ out, wire.jose.Seals key coins bytes out ∧ wire.jose.Opens key out bytes ∧
      (c.prepareRequest wire net coins msg peer).Succeeds s out s₁ := by
  obtain ⟨jwe, out, hencrypt, hserialize, hopen⟩ := hjose.seals coins bytes
  refine ⟨out, ⟨jwe, hencrypt, hserialize⟩, hopen, succeeds_bind (succeeds_wrap hnonce) ?_⟩
  refine succeeds_bind (succeeds_follow hkey s₁) ?_
  refine succeeds_bind (succeeds_ofExcept hjose.usable s₁) ?_
  refine succeeds_bind (succeeds_ofExcept hmarshal s₁) ?_
  exact succeeds_bind (succeeds_ofExcept hencrypt s₁) (succeeds_ofExcept hserialize s₁)

theorem sendRequest_succeeds (hurl : net.parseURL c.baseURL = .ok ()) {msg : APIRequest}
    {out : List UInt8} (hprepare : (c.prepareRequest wire net coins msg peer).Succeeds s out s₁)
    {body : Except String (List UInt8)}
    (hput : net.request .put c.baseURL
      ("/" ++ (msg.endpoint.request wire.codec.unmarshal).endpoint) out s₁
        = some (.ok ⟨200, body⟩, s₂)) :
    (c.sendRequest wire net coins msg peer).Succeeds s (cancelled net.readable body) s₂ :=
  succeeds_bind (succeeds_ofExcept hurl s) (succeeds_bind hprepare
    (succeeds_bind (succeeds_request hput)
      (succeeds_bind (succeeds_expectOK rfl s₂) (succeeds_pure _ s₂))))

theorem exchange_succeeds (hkey : c.authKey = some key) {msg : APIRequest}
    {text plain : List UInt8} {body : Except String (List UInt8)}
    (hsend : (c.sendRequest wire net coins msg peer).Succeeds s body s₁) (hbody : body = .ok text)
    (hopen : wire.jose.Opens key text plain) {r : Response}
    (hdecode : decodeResponse wire.codec.unmarshal msg.endpoint plain = .ok r) :
    (c.exchange wire net coins msg peer).Succeeds s r s₁ := by
  refine succeeds_bind (succeeds_wrap hsend) (succeeds_bind (succeeds_ofExcept hbody s₁) ?_)
  refine succeeds_bind (open_succeeds hkey hopen s₁) (succeeds_ofExcept ?_ s₁)
  rw [hdecode]
  rfl

end Client

/-! ## The HTTP side of the server -/

/-- The keys the handlers were made with: `config.AuthKey` and `me.Key`. -/
structure ServerKeys where
  authKey : JSONWebKey
  peerKey : JSONWebKey

/-- The key of an endpoint for nonces. -/
def ServerKeys.nonceKey (keys : ServerKeys) (peer : Bool) : JSONWebKey :=
  if peer then keys.peerKey else keys.authKey

/-- The peer to peer endpoints. -/
def Endpoint.peer : Endpoint → Bool
  | .uptime => true
  | .ping => true
  | .configChain => true
  | .configFetch => true
  | _ => false

/-- The key of an endpoint. -/
def ServerKeys.of (keys : ServerKeys) (e : Endpoint) : JSONWebKey := keys.nonceKey e.peer

/-- A handler of the mux. -/
inductive Route
  | nonce (peer : Bool)
  | endpoint (e : Endpoint)
  deriving DecidableEq, Repr

/-- The paths of `configureMux`, without their slash. -/
def configureMux : List (String × Route) :=
  [("nonce", .nonce false),
    ("authCheck", .endpoint .authCheck),
    ("configUpdate", .endpoint .configUpdate),
    ("configReload", .endpoint .configReload),
    ("peerRegister", .endpoint .peerRegister),
    ("identifyPublisher", .endpoint .identifyPublisher),
    ("peerNonce", .nonce true),
    ("uptime", .endpoint .uptime),
    ("ping", .endpoint .ping),
    ("configChain", .endpoint .configChain),
    ("configFetch", .endpoint .configFetch)]

/-- The handler of a path. -/
def route (path : String) : Option Route :=
  (configureMux.find? fun r => path = "/" ++ r.1).map Prod.snd

/-- `http.Error`. -/
def httpError (text : String) (code : ℕ) : HTTPResponse :=
  ⟨code, .ok (text ++ "\n").toUTF8.toList⟩

/-- `EncryptResponse`, on what `Marshal` of the response returns. -/
def encryptResponse (jose : Jose) (key : JSONWebKey) (coins : jose.Coins)
    (marshalled : Except String (List UInt8)) : Except String (List UInt8) := do
  let byt ← marshalled.mapError ("Could not marshal response: " ++ ·)
  (jose.getEncrypter key).mapError ("Could not initialize encrypter: " ++ ·)
  let cipherText ← (jose.encrypt key coins byt).mapError ("Could not encrypt ciphertext: " ++ ·)
  (jose.compactSerialize cipherText).mapError ("Could not serialize JWE: " ++ ·)

/-- The end of `handle`, for a handler that returned a response. -/
def respond (jose : Jose) (key : JSONWebKey) (coins : jose.Coins)
    (marshalled : Except String (List UInt8)) : HTTPResponse :=
  match encryptResponse jose key coins marshalled with
  | .ok serialized => ⟨200, .ok serialized⟩
  | .error e => httpError ("Error encrypting response: " ++ e) 500

/-- The text of a rejection. -/
def Rejection.text (explain : UnmarshalError → String) : Rejection → String
  | .invalidRequest msg => "Invalid Request: " ++ msg
  | .couldNotUnmarshal e => "Couldn't unmarshal: " ++ explain e
  | .invalidNonce e => "Invalid Request: " ++ e.text

/-- `handlePut`, up to the lock. -/
def handlePut (wire : Wire) (key : JSONWebKey) (e : Endpoint) (method : HTTPMethod)
    (bytes : List UInt8) : Body (e.request wire.codec.unmarshal) :=
  if method ≠ .put then .unparsed "Invalid HTTP Method for Request"
  else
    match wire.jose.parseEncrypted bytes with
    | .error err => .unparsed ("Could not parse JWE request: " ++ err)
    | .ok o =>
      match wire.jose.decrypt key o with
      | .error err => .undecrypted err
      | .ok plain => .opened (e.plain wire.codec.unmarshal plain)

/-- What a server is started with. -/
structure Service (β : Type) extends Wire where
  lib : Libraries β
  expireTime : ℤ
  keys : ServerKeys

/-- The server of a service. -/
abbrev Service.State {β : Type} (svc : Service β) := ServerState β svc.codec.unmarshal

/-- What happens to a server in the course of one HTTP request: the steps it takes before it comes
to the request, and then the time, the random source, the coins of the encryption, and what the
handler finds around it and leaves in the objects. -/
structure Turn {β : Type} (svc : Service β) where
  before : List (ServerAct β svc.codec.unmarshal)
  now : ℤ
  reads : List RandRead
  coins : svc.jose.Coins
  env : Env
  uptime : ℤ
  left : ∀ e : Endpoint, (e.request svc.codec.unmarshal).Obj

section Server

variable {β : Type} {svc : Service β}

/-- `handle` with `handleNonce`: `none` while the loop of `handleNonce` has not ended. -/
def serveNonce (peer : Bool) (turn : Turn svc) (s : svc.State) : Option (HTTPResponse × svc.State) :=
  (handleNonce turn.now turn.reads s.nonces).map fun r =>
    match r.1 with
    | .ok nonce =>
      (respond svc.jose (svc.keys.nonceKey peer) turn.coins (.ok nonce), { s with nonces := r.2 })
    | .error e => (httpError ("Error in request: " ++ e) 500, { s with nonces := r.2 })

/-- What `handle` answers when the handler has run; a panic closes the connection. -/
def answer (e : Endpoint) (coins : svc.jose.Coins) :
    EStateM.Result Failure (Guarded β) Message → Except String HTTPResponse
  | .ok m _ => .ok (respond svc.jose (svc.keys.of e) coins (m.marshal svc.codec))
  | .error (.error msg) _ => .ok (httpError ("Error in request: " ++ msg) 500)
  | .error _ _ => .error "EOF"

/-- `handle` after the verdict on a request: the handler runs if the request is accepted. -/
def afterVerdict (e : Endpoint) (turn : Turn svc) (s : svc.State) :
    Except Rejection Unit → Option (Except String HTTPResponse × svc.State)
  | .error r =>
    some (.ok (httpError ("Nonce validation failed: " ++ r.text svc.explain) r.status), s)
  | .ok () =>
    (serverStep svc.lib svc.expireTime s (.handle turn.env turn.uptime turn.left)).map fun s' =>
      (answer e turn.coins
        ((handler svc.codec.unmarshal svc.lib turn.env turn.uptime e (s.objs e)).run s.toGuarded), s')

/-- `handle` for an endpoint with a `PUT`: `none` while the server does not come to the request. -/
def serveEndpoint (e : Endpoint) (method : HTTPMethod) (bytes : List UInt8) (turn : Turn svc)
    (s : svc.State) : Option (Except String HTTPResponse × svc.State) :=
  let body := handlePut svc.toWire (svc.keys.of e) e method bytes
  (serverStep svc.lib svc.expireTime s (.receive e body turn.now)).bind fun s' =>
    afterVerdict e turn s'
      (handleValidateNonce (e.request svc.codec.unmarshal) svc.expireTime turn.now s.nonces
        (s.objs e) body.plain).1

/-- The mux. -/
def serveRequest (method : HTTPMethod) (path : String) (bytes : List UInt8) (turn : Turn svc)
    (s : svc.State) : Option (Except String HTTPResponse × svc.State) :=
  match route path with
  | none => some (.ok (httpError "404 page not found" 404), s)
  | some (.nonce peer) => (serveNonce peer turn s).map fun r => (.ok r.1, r.2)
  | some (.endpoint e) => serveEndpoint e method bytes turn s

/-- A server, and what will happen to it in the course of the coming requests. -/
structure World (svc : Service β) where
  server : svc.State
  turns : List (Turn svc)

/-- The network between a client and the server at a base URL.  The client gives a `PUT` thirty
seconds; it waits for a nonce as long as it takes. -/
def serverNetwork (svc : Service β) (parseURL : String → Except String Unit) (readable : ℕ) :
    HTTPNetwork (World svc) where
  parseURL := parseURL
  readable := readable
  request method _ path bytes w :=
    match w.turns with
    | [] => none
    | turn :: turns =>
      (run (serverStep svc.lib svc.expireTime) w.server turn.before).bind fun s =>
        match serveRequest method path bytes turn s, method with
        | some (resp, s'), _ => some (resp, ⟨s', turns⟩)
        | none, .put => some (.error "context deadline exceeded", ⟨s, turns⟩)
        | none, .get => none

theorem route_nonce (peer : Bool) : route ("/" ++ noncePath peer) = some (.nonce peer) := by
  cases peer <;> decide +kernel

theorem route_endpoint (unmarshalKey : Json → Except String JSONWebKey) (e : Endpoint) :
    route ("/" ++ (e.request unmarshalKey).endpoint) = some (.endpoint e) := by
  have hpath : (e.request unmarshalKey).endpoint = (e.request noKeys).endpoint := by
    cases e <;> rfl
  rw [hpath]
  cases e <;> decide +kernel

/-- A response that can be written opens to what was written. -/
theorem respond_opens {jose : Jose} {key : JSONWebKey} (hjose : jose.Lawful key)
    (coins : jose.Coins) {marshalled : Except String (List UInt8)} {bytes : List UInt8}
    (h : marshalled = .ok bytes) :
    ∃ text, respond jose key coins marshalled = ⟨200, .ok text⟩ ∧ jose.Seals key coins bytes text ∧
      jose.Opens key text bytes := by
  obtain ⟨jwe, text, hencrypt, hserialize, hopen⟩ := hjose.seals coins bytes
  have hok : encryptResponse jose key coins marshalled = .ok text := by
    subst h
    simp only [encryptResponse, Except.mapError, bind, Except.bind, hjose.usable, hencrypt,
      hserialize]
  refine ⟨text, ?_, ⟨jwe, hencrypt, hserialize⟩, hopen⟩
  rw [respond, hok]

/-- A request for a nonce that is granted. -/
theorem serve_nonce {peer : Bool} (hjose : svc.jose.Lawful (svc.keys.nonceKey peer))
    {turn : Turn svc} {s : svc.State} {n : Nonce} {nonces : NonceTable}
    (h : handleNonce turn.now turn.reads s.nonces = some (.ok n, nonces)) :
    ∃ text, svc.jose.Opens (svc.keys.nonceKey peer) text n ∧
      serveRequest .get ("/" ++ noncePath peer) [] turn s
        = some (.ok ⟨200, .ok text⟩, { s with nonces := nonces }) := by
  obtain ⟨text, hrespond, -, hopen⟩ := respond_opens hjose turn.coins (Eq.refl (Except.ok n))
  refine ⟨text, hopen, ?_⟩
  simp only [serveRequest, route_nonce, serveNonce, h, Option.map_some, hrespond]

/-- The nonce of the object of a request is the nonce that was put into the request. -/
theorem nonce_object (unmarshalKey : Json → Except String JSONWebKey) (r : APIRequest) {n : Nonce}
    (hn : n.length = nonceSize) :
    (r.endpoint.request unmarshalKey).nonce (r.object unmarshalKey n) = n := by
  cases r with
  | authCheck =>
    exact congrArg Subtype.val (AuthCheck.copy_val authCheckRequest.new ⟨n, hn⟩)
  | configUpdate => rfl
  | configReload => rfl
  | peerRegister => rfl
  | identifyPublisher => rfl
  | uptime => rfl
  | ping => rfl
  | configChain => rfl
  | configFetch => rfl

/-- A body that opens to a message. -/
theorem handlePut_opened {wire : Wire} {key : JSONWebKey} (e : Endpoint) {bytes plain : List UInt8}
    (h : wire.jose.Opens key bytes plain) :
    handlePut wire key e .put bytes = .opened (e.plain wire.codec.unmarshal plain) := by
  obtain ⟨jwe, hparse, hdecrypt⟩ := h
  simp only [handlePut, ne_eq, not_true_eq_false, if_false, hparse, hdecrypt]

/-- The object of the endpoint after the verdict on a request. -/
theorem judged_objs {unmarshalKey : Json → Except String JSONWebKey} (s : ServerState β unmarshalKey)
    (e : Endpoint) (v : Except Rejection Unit × (e.request unmarshalKey).Obj × NonceTable) :
    (s.judged e v).objs e = v.2.1 := Function.update_self ..

/-- An idle server comes to a request that decrypts. -/
theorem serverStep_opened {unmarshalKey : Json → Except String JSONWebKey} {lib : Libraries β}
    {expireTime now : ℤ} {s : ServerState β unmarshalKey} (hidle : s.pending = none)
    (hfree : s.held = false) {e : Endpoint} (p : (e.request unmarshalKey).Plain) :
    serverStep lib expireTime s (.receive e (.opened p) now)
      = some (s.judged e (handleValidateNonce (e.request unmarshalKey) expireTime now s.nonces
          (s.objs e) (.ok p))) := by
  simp only [serverStep, hidle, hfree, Option.isSome_none, Bool.false_eq_true, if_false]
  rfl

theorem Handler.leaves_of_ok {α : Type} {x : Handler β α} {a : α} {g g' : Guarded β}
    (h : x.run g = .ok a g') : x.leaves g = g' := by
  rw [Handler.leaves, h]

/-- An accepted request whose handler succeeds is answered. -/
theorem afterVerdict_ok {e : Endpoint} (hjose : svc.jose.Lawful (svc.keys.of e)) (turn : Turn svc)
    (s : svc.State) (hpending : s.pending = some e) {m : Message} {g : Guarded β}
    (hhandler : (handler svc.codec.unmarshal svc.lib turn.env turn.uptime e (s.objs e)).run
      s.toGuarded = .ok m g) {plain : List UInt8} (hanswer : m.marshal svc.codec = .ok plain) :
    ∃ text, svc.jose.Seals (svc.keys.of e) turn.coins plain text ∧
      svc.jose.Opens (svc.keys.of e) text plain ∧
      afterVerdict e turn s (.ok ()) = some (.ok ⟨200, .ok text⟩,
        { toGuarded := g, nonces := s.nonces, objs := turn.left, pending := none }) := by
  obtain ⟨text, hrespond, hseals, hopen⟩ := respond_opens hjose turn.coins hanswer
  refine ⟨text, hseals, hopen, ?_⟩
  have hanswered : answer e turn.coins (.ok m g) = .ok ⟨200, .ok text⟩ := congrArg _ hrespond
  rw [afterVerdict, hhandler, hanswered, serverStep, hpending, Option.map_some, Option.map_some,
    Handler.leaves_of_ok hhandler]

/-- **A request that is served**: it was written with a nonce that is in the table, the server is
idle, and the handler succeeds. -/
theorem serve_endpoint {r : APIRequest} (hcodec : svc.codec.Lawful)
    (hjose : svc.jose.Lawful (svc.keys.of r.endpoint)) (hformed : r.Formed) {turn : Turn svc}
    {s : svc.State} (hidle : s.pending = none) (hfree : s.held = false)
    (hclear : ClearObject svc.codec.unmarshal r.endpoint (s.objs r.endpoint)) {n : Nonce} {t : ℤ}
    (hsize : n.length = nonceSize) (hn : s.nonces.lookup n = some t)
    (hlive : turn.now ≤ t + svc.expireTime) {bytes out : List UInt8}
    (hmarshal : r.marshal svc.codec n = .ok bytes)
    (hopen : svc.jose.Opens (svc.keys.of r.endpoint) out bytes) {m : Message} {g : Guarded β}
    (hhandler : (handler svc.codec.unmarshal svc.lib turn.env turn.uptime r.endpoint
      (r.object svc.codec.unmarshal n)).run s.toGuarded = .ok m g) {plain : List UInt8}
    (hanswer : m.marshal svc.codec = .ok plain) :
    ∃ text, svc.jose.Seals (svc.keys.of r.endpoint) turn.coins plain text ∧
      svc.jose.Opens (svc.keys.of r.endpoint) text plain ∧
      serveRequest .put ("/" ++ (r.endpoint.request svc.codec.unmarshal).endpoint) out turn s
        = some (.ok ⟨200, .ok text⟩,
          { toGuarded := g, nonces := s.nonces.erase n, objs := turn.left, pending := none }) := by
  have hnonce := nonce_object svc.codec.unmarshal r hsize
  have hl : lookupNonce svc.expireTime turn.now s.nonces
      ((r.endpoint.request svc.codec.unmarshal).nonce (r.object svc.codec.unmarshal n)) = .ok () := by
    rw [hnonce]
    exact (lookupNonce_ok_iff _ _ _ _).mpr ⟨t, hn, hlive⟩
  have hverdict := handleValidateNonce_ok (unmarshal_marshal hcodec hformed hmarshal hclear) hl
  rw [hnonce] at hverdict
  have hbody : handlePut svc.toWire (svc.keys.of r.endpoint) r.endpoint .put out
      = .opened (r.endpoint.plain svc.codec.unmarshal bytes) := handlePut_opened _ hopen
  -- the state the handler runs in
  let judged : svc.State :=
    s.judged r.endpoint (.ok (), r.object svc.codec.unmarshal n, s.nonces.erase n)
  have hobjs : judged.objs r.endpoint = r.object svc.codec.unmarshal n := judged_objs ..
  obtain ⟨text, hseals, hopen', hafter⟩ := afterVerdict_ok hjose turn judged rfl
    (by rw [hobjs]; exact hhandler) hanswer
  refine ⟨text, hseals, hopen', ?_⟩
  rw [serveRequest, route_endpoint]
  show serveEndpoint r.endpoint .put out turn s = _
  rw [serveEndpoint, hbody]
  show (serverStep svc.lib svc.expireTime s _).bind _ = _
  rw [serverStep_opened hidle hfree, Option.bind_some, Body.plain, hverdict]
  exact hafter

/-! ## The nonce table in a run of the server -/

/-- **The verdict on a request that decrypts**: a rejection, which leaves the nonce table alone, or
the nonce that the object holds after the `Unmarshal` is live, and is deleted.  A request that can
be unmarshalled is rejected only when its nonce is not live. -/
theorem handleValidateNonce_cases {rt : RequestType} {p : rt.Plain} {obj obj' : rt.Obj}
    {failure : Option UnmarshalError} (hu : rt.unmarshal p obj = (obj', failure))
    (expireTime now : ℤ) (nonces : NonceTable) :
    (∃ r, handleValidateNonce rt expireTime now nonces obj (.ok p) = (.error r, obj', nonces) ∧
      (failure = none → ∀ t, nonces.lookup (rt.nonce obj') = some t → t + expireTime < now)) ∨
    (failure = none ∧ ∃ t, nonces.lookup (rt.nonce obj') = some t ∧ now ≤ t + expireTime ∧
      handleValidateNonce rt expireTime now nonces obj (.ok p)
        = (.ok (), obj', nonces.erase (rt.nonce obj'))) := by
  cases failure with
  | some e => exact Or.inl ⟨_, handleValidateNonce_unmarshal hu, fun h => by cases h⟩
  | none =>
    cases hl : lookupNonce expireTime now nonces (rt.nonce obj') with
    | error e =>
      refine Or.inl ⟨_, handleValidateNonce_lookup hu hl, fun _ t ht => ?_⟩
      by_contra hlive
      rw [(lookupNonce_ok_iff _ _ _ _).mpr ⟨t, ht, not_lt.mp hlive⟩] at hl
      cases hl
    | ok _ =>
      obtain ⟨t, ht, hlive⟩ := (lookupNonce_ok_iff _ _ _ _).mp hl
      exact Or.inr ⟨rfl, t, ht, hlive, handleValidateNonce_ok hu hl⟩

/-- **What a step of the server does to the nonce table.** -/
inductive NonceChange {unmarshalKey : Json → Except String JSONWebKey} (expireTime : ℤ)
    (s : ServerState β unmarshalKey) : ServerAct β unmarshalKey → NonceTable → Prop
  | same (a : ServerAct β unmarshalKey) : NonceChange expireTime s a s.nonces
  | issued {now : ℤ} {reads : List RandRead} {n : Nonce} (hsize : n.length = nonceSize)
      (habsent : s.nonces.lookup n = none) :
      NonceChange expireTime s (.issue now reads) (s.nonces.insert n now)
  | accepted {e : Endpoint} {p : (e.request unmarshalKey).Plain} {now t : ℤ}
      {obj : (e.request unmarshalKey).Obj}
      (hu : (e.request unmarshalKey).unmarshal p (s.objs e) = (obj, none))
      (hlookup : s.nonces.lookup ((e.request unmarshalKey).nonce obj) = some t)
      (hlive : now ≤ t + expireTime) :
      NonceChange expireTime s (.receive e (.opened p) now)
        (s.nonces.erase ((e.request unmarshalKey).nonce obj))
  | swept {now t : ℤ} {n : Nonce} (hlookup : s.nonces.lookup n = some t)
      (hexpired : t + expireTime < now) :
      NonceChange expireTime s (.sweep now n) (s.nonces.erase n)

/-- A body that does not decrypt is rejected. -/
theorem serverStep_undecrypted {unmarshalKey : Json → Except String JSONWebKey} {lib : Libraries β}
    {expireTime now : ℤ} {s s' : ServerState β unmarshalKey} {e : Endpoint} {msg : String}
    (hstep : serverStep lib expireTime s (.receive e (.undecrypted msg) now) = some s') :
    s' = s.judged e (.error (.invalidRequest msg), s.objs e, s.nonces) := by
  simp only [serverStep] at hstep
  split at hstep
  · cases hstep
  · cases hheld : s.held with
    | true =>
      rw [hheld] at hstep
      cases hstep
    | false =>
      rw [hheld] at hstep
      exact (Option.some.inj hstep).symm

theorem serverStep_nonces {unmarshalKey : Json → Except String JSONWebKey} {lib : Libraries β}
    {expireTime : ℤ} {s s' : ServerState β unmarshalKey} {a : ServerAct β unmarshalKey}
    (hstep : serverStep lib expireTime s a = some s') : NonceChange expireTime s a s'.nonces := by
  cases a with
  | receive e body now =>
    cases body with
    | unparsed msg =>
      simp only [serverStep] at hstep
      split at hstep
      · cases hstep
      · cases hstep
        exact .same _
    | undecrypted msg =>
      rw [serverStep_undecrypted hstep]
      exact .same _
    | opened p =>
      obtain ⟨-, -, rfl⟩ := serverStep_receive hstep
      rcases hu : (e.request unmarshalKey).unmarshal p (s.objs e) with ⟨obj, failure⟩
      rcases handleValidateNonce_cases hu expireTime now s.nonces with
        ⟨r, heq, -⟩ | ⟨rfl, t, hlookup, hlive, heq⟩
      · rw [heq]
        exact .same _
      · rw [heq]
        exact .accepted hu hlookup hlive
  | handle env uptime left =>
    obtain ⟨e, -, rfl⟩ := Option.map_eq_some_iff.mp hstep
    exact .same _
  | edit node =>
    cases hstep
    exact .same _
  | issue now reads =>
    obtain ⟨⟨r, nonces⟩, hr, rfl⟩ := Option.map_eq_some_iff.mp hstep
    rcases handleNonce_cases hr with ⟨e, -, rfl⟩ | ⟨n, -, hsize, habsent, rfl⟩
    · exact .same _
    · exact .issued hsize habsent
  | sweep now n =>
    cases hstep
    rcases sweepEntry_cases expireTime now s.nonces n with heq | ⟨t, hlookup, hexpired, heq⟩
    · show NonceChange expireTime s _ (sweepEntry _ _ _ _)
      rw [heq]
      exact .same _
    · show NonceChange expireTime s _ (sweepEntry _ _ _ _)
      rw [heq]
      exact .swept hlookup hexpired

/-! ## The exchange -/

/-- A step that leaves the nonce `n` alone, which expires at `deadline`: it is not a request that
carries `n`, and not a sweep after the deadline. -/
def Spares {unmarshalKey : Json → Except String JSONWebKey} (n : Nonce) (deadline : ℤ)
    (s : ServerState β unmarshalKey) : ServerAct β unmarshalKey → Prop
  | .receive e (.opened p) _ =>
    (e.request unmarshalKey).nonce ((e.request unmarshalKey).unmarshal p (s.objs e)).1 ≠ n
  | .sweep now _ => now ≤ deadline
  | _ => True

/-- A step that spares a nonce leaves its entry. -/
theorem lookup_of_spares {unmarshalKey : Json → Except String JSONWebKey} {lib : Libraries β}
    {expireTime : ℤ} {n : Nonce} {t : ℤ} (s : ServerState β unmarshalKey)
    (a : ServerAct β unmarshalKey) (s' : ServerState β unmarshalKey)
    (hn : s.nonces.lookup n = some t) (ha : Spares n (t + expireTime) s a)
    (hstep : serverStep lib expireTime s a = some s') : s'.nonces.lookup n = some t := by
  have hchange := serverStep_nonces hstep
  generalize s'.nonces = nonces at hchange ⊢
  cases hchange with
  | same => exact hn
  | issued hsize habsent =>
    rw [Finmap.lookup_insert_of_ne _ ?_]
    · exact hn
    · rintro rfl
      rw [hn] at habsent
      cases habsent
  | @accepted e p now t obj hu hlookup hlive =>
    have hne : (e.request unmarshalKey).nonce obj ≠ n := by
      have hobj := congrArg Prod.fst hu
      rw [← show _ = obj from hobj]
      exact ha
    rw [Finmap.lookup_erase_ne hne.symm]
    exact hn
  | @swept now t' m hlookup hexpired =>
    have hdeadline : now ≤ t + expireTime := ha
    rw [Finmap.lookup_erase_ne ?_]
    · exact hn
    · rintro rfl
      rw [hn] at hlookup
      cases hlookup
      omega

variable (parseURL : String → Except String Unit) (readable : ℕ)

theorem serverNetwork_request {method : HTTPMethod} (base : String) {path : String}
    {bytes : List UInt8} {turn : Turn svc} (turns : List (Turn svc)) {s s₁ s₂ : svc.State}
    {resp : Except String HTTPResponse}
    (hbefore : run (serverStep svc.lib svc.expireTime) s turn.before = some s₁)
    (hserve : serveRequest method path bytes turn s₁ = some (resp, s₂)) :
    (serverNetwork svc parseURL readable).request method base path bytes ⟨s, turn :: turns⟩
      = some (resp, ⟨s₂, turns⟩) := by
  simp only [serverNetwork, hbefore, Option.bind_some, hserve]

/-- **An exchange comes to its end.**  The server gives the client a nonce, takes any steps that
leave this nonce alone, and comes to the request before the nonce expires, when it is idle and the
object of the endpoint holds no configuration and no peer of an earlier request.  Then the handler
runs on the object of the request, and if it succeeds and its answer is not too long to be read
after the request was cancelled, the client returns that answer; the nonce is used up. -/
theorem exchange_completes (hcodec : svc.codec.Lawful) {c : Client} {key : JSONWebKey}
    (hjose : svc.jose.Lawful key) (hkey : c.authKey = some key)
    (hurl : parseURL c.baseURL = .ok ()) {r : APIRequest} (hendpoint : svc.keys.of r.endpoint = key)
    {peer : Bool} (hpeer : svc.keys.nonceKey peer = key) (hformed : r.Formed)
    (hwritable : ∀ nonce, ∃ bytes, r.marshal svc.codec nonce = .ok bytes)
    {first second : Turn svc} {s s₁ s₂ : svc.State} {n : Nonce} {nonces : NonceTable}
    (hfirst : run (serverStep svc.lib svc.expireTime) s first.before = some s₁)
    (hnonce : handleNonce first.now first.reads s₁.nonces = some (.ok n, nonces))
    (hsecond : run (serverStep svc.lib svc.expireTime) { s₁ with nonces := nonces } second.before
      = some s₂)
    (hspares : Along (serverStep svc.lib svc.expireTime) (Spares n (first.now + svc.expireTime))
      { s₁ with nonces := nonces } second.before)
    (hlive : second.now ≤ first.now + svc.expireTime)
    (hidle : s₂.pending = none) (hfree : s₂.held = false)
    (hclear : ClearObject svc.codec.unmarshal r.endpoint (s₂.objs r.endpoint))
    {m : Message} {g : Guarded β}
    (hhandler : (handler svc.codec.unmarshal svc.lib second.env second.uptime r.endpoint
      (r.object svc.codec.unmarshal n)).run s₂.toGuarded = .ok m g)
    (hm : m.Formed) (hanswer : ∃ bytes, m.marshal svc.codec = .ok bytes)
    (hread : ∀ bytes text, m.marshal svc.codec = .ok bytes →
      svc.jose.Seals key second.coins bytes text → text.length ≤ readable) (coins : svc.jose.Coins) :
    (c.exchange svc.toWire (serverNetwork svc parseURL readable) coins r peer).Succeeds
      ⟨s, [first, second]⟩ m.response
      ⟨{ toGuarded := g, nonces := s₂.nonces.erase n, objs := second.left, pending := none }, []⟩ := by
  obtain ⟨plain, hplain⟩ := hanswer
  obtain ⟨bytes, hbytes⟩ := hwritable n
  have hissued : nonces.lookup n = some first.now ∧ n.length = nonceSize := by
    rcases handleNonce_cases hnonce with ⟨e, he, -⟩ | ⟨n', hn', hsize, -, rfl⟩
    · cases he
    · cases hn'
      exact ⟨Finmap.lookup_insert _, hsize⟩
  have hn : s₂.nonces.lookup n = some first.now :=
    run_invariant_along (P := fun s => s.nonces.lookup n = some first.now)
      (fun s a s' hs ha => lookup_of_spares s a s' hs ha) hissued.1 hspares hsecond
  -- the request for the nonce
  subst hpeer
  obtain ⟨nonceText, hopenNonce, hserveNonce⟩ := serve_nonce hjose hnonce
  have hget := serverNetwork_request parseURL readable c.baseURL [second] hfirst hserveNonce
  have hgetNonce : (c.getNonce svc.toWire (serverNetwork svc parseURL readable) peer).Succeeds
      ⟨s, [first, second]⟩ n ⟨{ s₁ with nonces := nonces }, [second]⟩ :=
    getNonce_succeeds hkey hurl hget hopenNonce
  -- the request itself
  obtain ⟨out, -, hopen, hprepare⟩ := prepareRequest_succeeds coins hjose hkey hgetNonce hbytes
  rw [← hendpoint] at hjose hopen hkey hread
  obtain ⟨text, hseals, hopenText, hserve⟩ := serve_endpoint hcodec hjose hformed hidle hfree hclear
    hissued.2 hn hlive hbytes hopen hhandler hplain
  have hput := serverNetwork_request parseURL readable c.baseURL [] hsecond hserve
  have hsend := sendRequest_succeeds hurl hprepare hput
  exact exchange_succeeds hkey hsend (cancelled_ok (hread plain text hplain hseals)) hopenText
    (decodeResponse_marshal hcodec hm (handler_answers hhandler) hplain)

end Server

/-- An encryption that hides nothing. -/
def plainJose : Jose where
  Coins := Unit
  JWE := List UInt8
  getEncrypter _ := .ok ()
  encrypt _ _ plain := .ok plain
  compactSerialize jwe := .ok jwe
  parseEncrypted text := .ok text
  decrypt _ jwe := .ok jwe

theorem lawful_plainJose (key : JSONWebKey) : plainJose.Lawful key where
  usable := rfl
  seals _ plain := ⟨plain, plain, rfl, rfl, plain, rfl, rfl⟩

/-- A server whose nonces live thirty nanoseconds. -/
def plainService : Service ConfigData where
  jose := plainJose
  codec := octCodec
  explain _ := "invalid request"
  lib := plainLibraries
  expireTime := 30
  keys := ⟨⟨[1], "auth", "A256KW"⟩, ⟨[2], "foo", "A256KW"⟩⟩

/-- A turn in which the server has been running for five nanoseconds. -/
def plainTurn (before : List (ServerAct ConfigData octCodec.unmarshal)) (now : ℤ) :
    Turn plainService where
  before := before
  now := now
  reads := [zeroRead]
  coins := ()
  env := calmEnv
  uptime := 5
  left e := (e.request octCodec.unmarshal).new

/-- The nonce table after one request for a nonce. -/
def oneNonce : NonceTable := (∅ : NonceTable).insert zeroRead.byt 0

/-- A new server, with a nonce table. -/
def plainState (nonces : NonceTable) : plainService.State :=
  { ServerState.init octCodec.unmarshal onePeerNode with nonces := nonces }

/-- A nonce is issued to a peer that asks for the uptime, and the table is swept before the second
request arrives, at the last moment of the nonce. -/
theorem exchange_completes_uptime :
    ((fromPeer ⟨none, "127.0.0.1:5309", some plainService.keys.peerKey⟩).exchange
        plainService.toWire (serverNetwork plainService (fun _ => .ok ()) 4096) () .uptime
        true).Succeeds
      ⟨plainState ∅, [plainTurn [] 0, plainTurn [.sweep 30 zeroRead.byt] 30]⟩
      (Message.uptime 5).response
      ⟨plainState ((sweepEntry 30 30 oneNonce zeroRead.byt).erase zeroRead.byt), []⟩ := by
  have hnonce : handleNonce 0 [zeroRead] ∅ = some (.ok zeroRead.byt, oneNonce) := rfl
  have hspares : Spares zeroRead.byt 30 (plainState oneNonce) (.sweep 30 zeroRead.byt) := le_refl 30
  have hread : ∀ bytes text, (Message.uptime 5).marshal octCodec = .ok bytes →
      plainJose.Seals plainService.keys.peerKey () bytes text → text.length ≤ 4096 := by
    rintro bytes text hbytes ⟨jwe, hjwe, htext⟩
    cases hbytes
    cases hjwe
    cases htext
    decide
  exact @exchange_completes _ plainService _ 4096 lawful_octCodec _ _ (lawful_plainJose _) rfl rfl
    .uptime rfl true rfl trivial (fun _ => ⟨_, rfl⟩) (plainTurn [] 0)
    (plainTurn [.sweep 30 zeroRead.byt] 30) (plainState ∅) (plainState ∅)
    (plainState (sweepEntry 30 30 oneNonce zeroRead.byt)) zeroRead.byt oneNonce rfl hnonce rfl
    ⟨hspares, fun _ _ => trivial⟩ (le_refl 30) rfl rfl trivial (.uptime 5) _ rfl
    ⟨by decide, by decide⟩ ⟨_, rfl⟩ hread ()

/-! ## Answers that are echoes -/

/-- A network without a server: it answers the request for a nonce with a recorded text, and sends
every other request back. -/
def echoNetwork (parseURL : String → Except String Unit) (readable : ℕ) (recorded : List UInt8) :
    HTTPNetwork Unit where
  parseURL := parseURL
  readable := readable
  request
    | .get, _, _, _, w => some (.ok ⟨200, .ok recorded⟩, w)
    | .put, _, _, bytes, w => some (.ok ⟨200, .ok bytes⟩, w)

/-- What the client reads in a request of its own: the answer without any of its values. -/
def APIRequest.echoed (nonce : List UInt8) : APIRequest → Response
  | .authCheck => .nil
  | .configUpdate _ => .nil
  | .configReload => .nil
  | .peerRegister _ => .nil
  | .identifyPublisher => .identifyPublisher ⟨nonce, ""⟩
  | .uptime => .uptime 0
  | .ping => .nil
  | .configChain => .configChain ⟨nonce, none⟩
  | .configFetch => .configFetch ⟨nonce, none, none⟩

/-- A decoder that knows no field takes any object. -/
theorem decodeNilResponse_obj (fields : List (String × Json)) :
    decodeNilResponse (.obj fields) () = ((), .ok) := by
  show decodeFields [] fields () = _
  induction fields with
  | nil => rfl
  | cons f rest ih => exact ih

/-- **A request is read as an answer to itself.** -/
theorem decodeResponse_request {codec : KeyCodec} {r : APIRequest} (hr : r.endpoint ≠ .authCheck)
    {nonce bytes : List UInt8} (h : r.marshal codec nonce = .ok bytes) :
    decodeResponse codec.unmarshal r.endpoint bytes = .ok (r.echoed nonce) := by
  cases r with
  | authCheck => exact absurd rfl hr
  | configUpdate config =>
    obtain ⟨j, -, h⟩ := exists_of_bind h
    cases h
    exact unmarshalNew_render (decodeNilResponse_obj _) fun _ => .nil
  | configReload =>
    cases h
    exact unmarshalNew_render (decodeNilResponse_obj _) fun _ => .nil
  | peerRegister peer =>
    obtain ⟨j, -, h⟩ := exists_of_bind h
    cases h
    exact unmarshalNew_render (decodeNilResponse_obj _) fun _ => .nil
  | identifyPublisher =>
    cases h
    refine unmarshalNew_render (r := ⟨nonce, ""⟩) ?_ .identifyPublisher
    simp [decodeIdentifyPublisherResponse, decodeStruct, decodeFields, findField, field,
      decodeBytes_encodeBytes, Status.andThen]
  | uptime =>
    cases h
    refine unmarshalNew_render (r := 0) ?_ .uptime
    have hother : foldKey "uptime" ≠ foldKey "nonce" := by decide +kernel
    simp [decodeUptimeResponse, decodeStruct, decodeFields, findField, field, hother]
  | ping =>
    cases h
    exact unmarshalNew_render (decodeNilResponse_obj _) fun _ => .nil
  | configChain =>
    cases h
    refine unmarshalNew_render (r := ⟨nonce, none⟩) ?_ .configChain
    simp [decodeConfigChainResponse, decodeStruct, decodeFields, findField, field,
      decodeBytes_encodeBytes, Status.andThen]
  | configFetch =>
    cases h
    refine unmarshalNew_render (r := ⟨nonce, none, none⟩) ?_ .configFetch
    simp [decodeConfigFetchResponse, decodeStruct, decodeFields, findField, field,
      decodeBytes_encodeBytes, Status.andThen]

/-- **An exchange needs no server.**  Whoever has recorded one message that was encrypted with the
key of a client, whatever its content, makes every request of that client succeed: the recorded
message stands for the nonce, and the request for its own answer.  If the request is not too long
to be read after it was cancelled, the client takes it for an answer that has no values. -/
theorem exchange_echo {wire : Wire} {c : Client} {key : JSONWebKey} (hjose : wire.jose.Lawful key)
    (hkey : c.authKey = some key) {parseURL : String → Except String Unit}
    (hurl : parseURL c.baseURL = .ok ()) {recorded nonce : List UInt8}
    (hrecorded : wire.jose.Opens key recorded nonce) {r : APIRequest} {bytes : List UInt8}
    (hmarshal : r.marshal wire.codec nonce = .ok bytes) (coins : wire.jose.Coins) (peer : Bool)
    (readable : ℕ) :
    (∃ body, (c.sendRequest wire (echoNetwork parseURL readable recorded) coins r peer).Succeeds
      () body ()) ∧
    (r.endpoint ≠ .authCheck →
      (∀ text, wire.jose.Seals key coins bytes text → text.length ≤ readable) →
      (c.exchange wire (echoNetwork parseURL readable recorded) coins r peer).Succeeds
        () (r.echoed nonce) ()) := by
  have hnonce : (c.getNonce wire (echoNetwork parseURL readable recorded) peer).Succeeds
      () nonce () := getNonce_succeeds hkey hurl rfl hrecorded
  obtain ⟨out, hseals, hopen, hprepare⟩ := prepareRequest_succeeds coins hjose hkey hnonce hmarshal
  have hsend : (c.sendRequest wire (echoNetwork parseURL readable recorded) coins r peer).Succeeds
      () (cancelled readable (.ok out)) () := sendRequest_succeeds hurl hprepare rfl
  exact ⟨⟨_, hsend⟩, fun hr hread => exchange_succeeds hkey hsend (cancelled_ok (hread out hseals))
    hopen (decodeResponse_request hr hmarshal)⟩

/-- An update of the configuration is echoed: the client takes it as done. -/
theorem exchange_echo_configUpdate :
    ((Client.mk (some ⟨[1], "auth", "A256KW"⟩) "http://127.0.0.1:5309").exchange plainService.toWire
      (echoNetwork (fun _ => .ok ()) 4096 [0]) () (.configUpdate (some ConfigData.zero))
      false).Succeeds () .nil () := by
  refine (exchange_echo (lawful_plainJose _) rfl rfl ⟨_, rfl, rfl⟩ rfl () false 4096).2
    (by decide) ?_
  rintro text ⟨jwe, hjwe, htext⟩
  cases hjwe
  cases htext
  decide +kernel

end Border
