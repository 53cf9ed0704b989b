/-
# An update from the command line

The command of `cmd/border` that replaces the configuration of a server: `clientUpdateConfig` loads
the client configuration and a YAML file, as `FromDisk` does, sends the whole configuration, and
prints what came of it.

An exchange that succeeds is taken apart here, from the line that is printed back to the handler
that ran (`exchange_ok`).

* `clientUpdateConfig_exact` : when `update` prints `OK`, the server has exactly the configuration
  that was loaded from the file, the values of its records included.
-/
import Border.ControlClient
import Border.GoLibraries

namespace Border

open GoJson GoMap NetAddr Transition

/-! ## The command -/

/-- The machine the command runs on. -/
structure Workstation where
  clientConfigFile : String
  files : String → Option (List UInt8)
  env : Env

/-- `os.ReadFile`. -/
def Workstation.readFile (ws : Workstation) (filename : String) : Except String (List UInt8) :=
  match ws.env.fault .openFile, ws.files filename, ws.env.fault .readFile with
  | some e, _, _ => .error e
  | none, none, _ => .error ("open " ++ filename ++ ": no such file or directory")
  | none, some _, some e => .error e
  | none, some byt, none => .ok byt

/-- A `controlclient.Client`. -/
def decodeClient (codec : KeyCodec) : Decoder Client :=
  decodeStruct "controlclient.Client" [
    field "auth_key" Client.authKey (fun c v => { c with authKey := v })
      (decodeKeyPtr codec.unmarshal),
    field "base_url" Client.baseURL (fun c v => { c with baseURL := v }) decodeString]

/-- `controlclient.Load`. -/
def Client.load (codec : KeyCodec) (yaml : YamlCodec) (ws : Workstation) (filename : String) :
    Except String Client := do
  let byt ← (ws.readFile filename).mapError ("Could not read client configuration: " ++ ·)
  (yamlUnmarshal yaml (decodeClient codec) ⟨none, ""⟩ byt).mapError
    ("Could not unmarshal client configuration: " ++ ·)

/-- An outcome that does not touch the network, with its failure as it is. -/
def Session.ofResult {σ α : Type} (r : Except Failure α) : Session σ α := ExceptT.mk (pure r)

section Commands

variable {σ : Type} (wire : Wire) (yaml : YamlCodec) (net : HTTPNetwork σ) (ws : Workstation)
  (coins : wire.jose.Coins)

/-- The start of a command. -/
def loadClient : Session σ Client :=
  Session.ofExcept ("Could not load client configuration at " ++ quoted ws.clientConfigFile ++ ": ")
    (Client.load wire.codec yaml ws ws.clientConfigFile)

/-- What `clientUpdateConfig` does with a file. -/
def sendConfig (lib : Libraries (List UInt8)) (client : Client) (filename : String) :
    Session σ String := do
  let c ← Session.ofResult (fromDisk lib ws.env (Config.new []) filename (loadYAML lib)
    ((ws.files filename).map .doc))
  let _ ← Session.wrap "Error updating configuration: "
    (client.exchange wire net coins (.configUpdate (some c.toConfigData)) false)
  pure "OK"

/-- `clientUpdateConfig`; `lib` is what `FromDisk` uses. -/
def clientUpdateConfig (lib : Libraries (List UInt8)) (args : List String) : Session σ String := do
  let client ← loadClient wire yaml ws
  match args with
  | [filename] => sendConfig wire net ws coins lib client filename
  | _ => throw (.error "Please provide a config file to load")

end Commands

/-! ## Commands and exchanges that succeed -/

section Client

open Session

variable {σ : Type} {wire : Wire} {yaml : YamlCodec} {net : HTTPNetwork σ} {ws : Workstation}
  {coins : wire.jose.Coins} {c : Client} {key : JSONWebKey} {s s' : σ} {peer : Bool}

theorem Session.of_ofExcept_bind {α γ : Type} {label : String} {r : Except String α}
    {f : α → Session σ γ} {b : γ} (h : (ofExcept label r >>= f).Succeeds s b s') :
    ∃ a, r = .ok a ∧ (f a).Succeeds s b s' := by
  obtain ⟨a, t, hr, hf⟩ := of_bind h
  obtain ⟨hok, rfl⟩ := of_ofExcept hr
  exact ⟨a, hok, hf⟩

theorem Session.of_follow_bind {α γ : Type} {p : Option α} {f : α → Session σ γ} {b : γ}
    (h : (follow p >>= f).Succeeds s b s') : ∃ a, p = some a ∧ (f a).Succeeds s b s' := by
  obtain ⟨a, t, hp, hf⟩ := of_bind h
  obtain ⟨hsome, rfl⟩ := of_follow hp
  exact ⟨a, hsome, hf⟩

theorem Session.of_expectOK_bind {γ : Type} {label call : String} {resp : HTTPResponse}
    {f : Unit → Session σ γ} {b : γ} (h : (expectOK label call resp >>= f).Succeeds s b s') :
    resp.statusCode = 200 ∧ (f ()).Succeeds s b s' := by
  obtain ⟨_, t, hresp, hf⟩ := of_bind h
  obtain ⟨hstatus, rfl⟩ := of_expectOK hresp
  exact ⟨hstatus, hf⟩

theorem Session.of_ofResult_bind {α γ : Type} {r : Except Failure α} {f : α → Session σ γ} {b : γ}
    (h : (ofResult r >>= f).Succeeds s b s') : ∃ a, r = .ok a ∧ (f a).Succeeds s b s' := by
  cases r with
  | error e => cases h
  | ok a => exact ⟨a, rfl, h⟩

/-- A decryption does not touch the network. -/
theorem of_open {text plain : List UInt8} (h : (c.open wire text).Succeeds s plain s') : s' = s := by
  obtain ⟨_, -, hkey⟩ := of_ofExcept_bind h
  obtain ⟨_, -, hdecrypt⟩ := of_follow_bind hkey
  exact (of_ofExcept hdecrypt).2

/-- A nonce that was retrieved came with a response. -/
theorem of_getNonce {nonce : List UInt8} (h : (c.getNonce wire net peer).Succeeds s nonce s') :
    ∃ resp, net.request .get c.baseURL ("/" ++ noncePath peer) [] s = some (.ok resp, s') := by
  obtain ⟨_, -, hcall⟩ := of_ofExcept_bind h
  obtain ⟨resp, t, hget, hresp⟩ := of_bind hcall
  obtain ⟨-, hbody⟩ := of_expectOK_bind hresp
  obtain ⟨_, -, hopen⟩ := of_ofExcept_bind hbody
  obtain rfl := of_open hopen
  exact ⟨resp, of_request hget⟩

/-- **What is sent opens to the request with the nonce in it.** -/
theorem of_prepareRequest (hjose : wire.jose.Lawful key) (hkey : c.authKey = some key)
    {msg : APIRequest} {out : List UInt8}
    (h : (c.prepareRequest wire net coins msg peer).Succeeds s out s') :
    ∃ nonce bytes, (c.getNonce wire net peer).Succeeds s nonce s' ∧
      msg.marshal wire.codec nonce = .ok bytes ∧ wire.jose.Opens key out bytes := by
  obtain ⟨nonce, t, hnonce, hrest⟩ := of_bind h
  obtain ⟨key', hkey', hencrypter⟩ := of_follow_bind hrest
  obtain rfl : key = key' := Option.some.inj (hkey.symm.trans hkey')
  obtain ⟨_, -, hbytes⟩ := of_ofExcept_bind hencrypter
  obtain ⟨bytes, hmarshal, hsealed⟩ := of_ofExcept_bind hbytes
  obtain ⟨jwe, hencrypt, hout⟩ := of_ofExcept_bind hsealed
  obtain ⟨hserialize, rfl⟩ := of_ofExcept hout
  obtain ⟨jwe', out', hencrypt', hserialize', hopen⟩ := hjose.seals coins bytes
  obtain rfl := Except.ok.inj (hencrypt.symm.trans hencrypt')
  obtain rfl := Except.ok.inj (hserialize.symm.trans hserialize')
  exact ⟨nonce, bytes, of_wrap hnonce, hmarshal, hopen⟩

/-- **The two requests of an exchange that succeeds.** -/
theorem of_exchange (hjose : wire.jose.Lawful key) (hkey : c.authKey = some key) {msg : APIRequest}
    {r : Response} (h : (c.exchange wire net coins msg peer).Succeeds s r s') :
    ∃ nonce bytes out t first second,
      net.request .get c.baseURL ("/" ++ noncePath peer) [] s = some (.ok first, t) ∧
      msg.marshal wire.codec nonce = .ok bytes ∧ wire.jose.Opens key out bytes ∧
      net.request .put c.baseURL ("/" ++ (msg.endpoint.request wire.codec.unmarshal).endpoint) out t
        = some (.ok second, s') ∧ second.statusCode = 200 := by
  obtain ⟨body, u, hsend, hrest⟩ := of_bind h
  obtain ⟨_, -, hbyt⟩ := of_ofExcept_bind hrest
  obtain ⟨_, v, hopened, hdecode⟩ := of_bind hbyt
  obtain rfl := of_open hopened
  obtain ⟨-, rfl⟩ := of_ofExcept hdecode
  -- the call of `SendRequest`
  obtain ⟨_, -, hcall⟩ := of_ofExcept_bind (of_wrap hsend)
  obtain ⟨out, t, hprepare, hput⟩ := of_bind hcall
  obtain ⟨second, v, hrequest, hresp⟩ := of_bind hput
  obtain ⟨hstatus, hbody⟩ := of_expectOK_bind hresp
  cases hbody
  obtain ⟨nonce, bytes, hnonce, hmarshal, hopen⟩ := of_prepareRequest hjose hkey hprepare
  obtain ⟨first, hget⟩ := of_getNonce hnonce
  exact ⟨nonce, bytes, out, t, first, second, hget, hmarshal, hopen, of_request hrequest, hstatus⟩

end Client

/-! ## Requests that were served -/

section Server

variable {β : Type} {svc : Service β} {parseURL : String → Except String Unit} {readable : ℕ}

/-- The inversion of a request to a server. -/
theorem serverNetwork_ok {method : HTTPMethod} {base path : String} {bytes : List UInt8}
    {turn : Turn svc} {turns : List (Turn svc)} {s : svc.State} {resp : HTTPResponse}
    {w : World svc}
    (h : (serverNetwork svc parseURL readable).request method base path bytes ⟨s, turn :: turns⟩
      = some (.ok resp, w)) :
    ∃ s₁ s₂, run (serverStep svc.lib svc.expireTime) s turn.before = some s₁ ∧
      serveRequest method path bytes turn s₁ = some (.ok resp, s₂) ∧ w = ⟨s₂, turns⟩ := by
  obtain ⟨s₁, hbefore, hserve⟩ := Option.bind_eq_some_iff.mp h
  refine ⟨s₁, w.server, hbefore, ?_⟩
  cases hr : serveRequest method path bytes turn s₁ with
  | none =>
    rw [hr] at hserve
    cases method with
    | get => cases hserve
    | put => cases hserve
  | some r =>
    obtain ⟨outcome, s₂⟩ := r
    rw [hr] at hserve
    cases hserve
    exact ⟨rfl, rfl⟩

/-- Whatever comes of a request for a nonce, only the nonce table changes. -/
theorem serveNonce_state {peer : Bool} {turn : Turn svc} {s s' : svc.State}
    {resp : Except String HTTPResponse}
    (h : serveRequest .get ("/" ++ noncePath peer) [] turn s = some (resp, s')) :
    ∃ nonces, s' = { s with nonces := nonces } := by
  rw [serveRequest, route_nonce] at h
  obtain ⟨r, hr, hresp⟩ := Option.map_eq_some_iff.mp h
  obtain ⟨outcome, -, hr⟩ := Option.map_eq_some_iff.mp hr
  cases hresp
  refine ⟨outcome.2, ?_⟩
  subst hr
  cases houtcome : outcome.1 <;> rfl

theorem Rejection.status_ne (r : Rejection) : r.status ≠ 200 := by
  cases r <;> simp [Rejection.status]

/-- Only a handler that returned is answered with the status of success. -/
theorem answer_ok {e : Endpoint} {coins : svc.jose.Coins}
    {r : EStateM.Result Failure (Guarded β) Message} {resp : HTTPResponse}
    (h : answer e coins r = .ok resp) (hstatus : resp.statusCode = 200) : ∃ m g, r = .ok m g := by
  cases r with
  | ok m g => exact ⟨m, g, rfl⟩
  | error f g =>
    cases f with
    | error msg =>
      cases h
      exact absurd hstatus (by simp [httpError])
    | panic msg => cases h
    | exit msg => cases h

/-- **A request that was answered with success was accepted, and its handler returned.** -/
theorem afterVerdict_success {e : Endpoint} {turn : Turn svc} {s s' : svc.State}
    {verdict : Except Rejection Unit} {resp : HTTPResponse}
    (h : afterVerdict e turn s verdict = some (.ok resp, s')) (hstatus : resp.statusCode = 200) :
    verdict = .ok () ∧ ∃ m g, (handler svc.codec.unmarshal svc.lib turn.env turn.uptime e
      (s.objs e)).run s.toGuarded = .ok m g ∧
      serverStep svc.lib svc.expireTime s (.handle turn.env turn.uptime turn.left) = some s' := by
  cases verdict with
  | error r =>
    cases h
    exact absurd hstatus r.status_ne
  | ok u =>
    obtain ⟨s'', hstep, heq⟩ := Option.map_eq_some_iff.mp h
    obtain ⟨hanswer, rfl⟩ := Prod.mk.inj heq
    obtain ⟨m, g, hrun⟩ := answer_ok hanswer hstatus
    exact ⟨rfl, m, g, hrun, hstep⟩

/-- **What it takes to be served.**  A request that was sealed with the key of its endpoint and is
answered with success finds the server idle, and if the object of the endpoint is clear, the handler
has run on the object of this request. -/
theorem serveRequest_success {r : APIRequest} (hcodec : svc.codec.Lawful) (hformed : r.Formed)
    {nonce bytes out : List UInt8} (hmarshal : r.marshal svc.codec nonce = .ok bytes)
    (hopen : svc.jose.Opens (svc.keys.of r.endpoint) out bytes) {turn : Turn svc} {s s' : svc.State}
    {resp : HTTPResponse}
    (h : serveRequest .put ("/" ++ (r.endpoint.request svc.codec.unmarshal).endpoint) out turn s
      = some (.ok resp, s')) (hstatus : resp.statusCode = 200)
    (hclear : ClearObject svc.codec.unmarshal r.endpoint (s.objs r.endpoint)) :
    ∃ m, (handler svc.codec.unmarshal svc.lib turn.env turn.uptime r.endpoint
      (r.object svc.codec.unmarshal nonce)).run s.toGuarded = .ok m s'.toGuarded := by
  rw [serveRequest, route_endpoint] at h
  replace h : serveEndpoint r.endpoint .put out turn s = some (.ok resp, s') := h
  have hbody : handlePut svc.toWire (svc.keys.of r.endpoint) r.endpoint .put out
      = .opened (r.endpoint.plain svc.codec.unmarshal bytes) := handlePut_opened _ hopen
  rw [serveEndpoint, hbody] at h
  obtain ⟨judged, hreceive, hafter⟩ := Option.bind_eq_some_iff.mp h
  obtain ⟨-, -, rfl⟩ := serverStep_receive hreceive
  replace hafter : afterVerdict r.endpoint turn
      (s.judged r.endpoint (handleValidateNonce (r.endpoint.request svc.codec.unmarshal)
        svc.expireTime turn.now s.nonces (s.objs r.endpoint)
        (.ok (r.endpoint.plain svc.codec.unmarshal bytes))))
      (handleValidateNonce (r.endpoint.request svc.codec.unmarshal) svc.expireTime turn.now s.nonces
        (s.objs r.endpoint) (.ok (r.endpoint.plain svc.codec.unmarshal bytes))).1
      = some (.ok resp, s') := hafter
  rcases handleValidateNonce_cases (unmarshal_marshal hcodec hformed hmarshal hclear)
    svc.expireTime turn.now s.nonces with ⟨rejection, hverdict, -⟩ | ⟨-, t, -, -, hverdict⟩
  · rw [hverdict] at hafter
    cases (afterVerdict_success hafter hstatus).1
  · rw [hverdict] at hafter
    obtain ⟨-, m, g, hrun, hhandle⟩ := afterVerdict_success hafter hstatus
    obtain ⟨e, hpending, -, hleft⟩ := serverStep_handle hhandle
    obtain rfl : r.endpoint = e := Option.some.inj hpending
    rw [Handler.leaves_of_ok hrun] at hleft
    rw [judged_objs] at hrun
    exact ⟨m, hleft ▸ hrun⟩

/-- The states in which the server comes to the second of two requests, the first of them being one
for a nonce. -/
def ComesTo (s : svc.State) (first second : Turn svc) (s₂ : svc.State) : Prop :=
  ∃ s₁ nonces, run (serverStep svc.lib svc.expireTime) s first.before = some s₁ ∧
    run (serverStep svc.lib svc.expireTime) { s₁ with nonces := nonces } second.before = some s₂

/-- **An exchange that succeeds, seen from the server.**  The handler has run on the object of the
request, and the server is as it left it. -/
theorem exchange_ok (hcodec : svc.codec.Lawful) {c : Client} {key : JSONWebKey}
    (hjose : svc.jose.Lawful key) (hkey : c.authKey = some key) {r : APIRequest}
    (hendpoint : svc.keys.of r.endpoint = key) (hformed : r.Formed) {peer : Bool}
    {coins : svc.jose.Coins} {first second : Turn svc} {s : svc.State}
    (hclear : ∀ s₂, ComesTo s first second s₂ →
      ClearObject svc.codec.unmarshal r.endpoint (s₂.objs r.endpoint))
    {turns : List (Turn svc)} {resp : Response} {w : World svc}
    (h : (c.exchange svc.toWire (serverNetwork svc parseURL readable) coins r peer).Succeeds
      ⟨s, first :: second :: turns⟩ resp w) :
    ∃ s₂ nonce m, ComesTo s first second s₂ ∧
      (handler svc.codec.unmarshal svc.lib second.env second.uptime r.endpoint
        (r.object svc.codec.unmarshal nonce)).run s₂.toGuarded = .ok m w.server.toGuarded := by
  obtain ⟨nonce, bytes, out, t, got, put, hget, hmarshal, hopen, hput, hstatus⟩ :=
    of_exchange hjose hkey h
  obtain ⟨s₁, t', hfirst, hserved, rfl⟩ := serverNetwork_ok hget
  obtain ⟨nonces, rfl⟩ := serveNonce_state hserved
  obtain ⟨s₂, s', hsecond, hserved', rfl⟩ := serverNetwork_ok hput
  have hcomes : ComesTo s first second s₂ := ⟨s₁, nonces, hfirst, hsecond⟩
  obtain ⟨m, hrun⟩ := serveRequest_success hcodec hformed hmarshal (hendpoint ▸ hopen) hserved'
    hstatus (hclear s₂ hcomes)
  exact ⟨s₂, nonce, m, hcomes, hrun⟩

/-- What a handler does to the node, when without its mutex it is a call that returns nothing. -/
theorem run_of_onNode {x : Handler β Message} {p : Prog β Unit} {g g' : Guarded β} {m : Message}
    (hx : Handler.onNode x g.held = (do p; pure .nil)) (h : x.run g = .ok m g') :
    p.run g.node = .ok () g'.node := by
  have hnode : Handler.onNode x g.held g.node = .ok m g'.node := by
    unfold Handler.onNode
    rw [show x.run ⟨g.node, g.held⟩ = .ok m g' from h]
  rw [hx] at hnode
  replace hnode : EStateM.bind p (fun _ => pure Message.nil) g.node = .ok m g'.node := hnode
  unfold EStateM.bind at hnode
  cases hp : p g.node with
  | error e node =>
    rw [hp] at hnode
    cases hnode
  | ok u node =>
    rw [hp] at hnode
    cases hnode
    exact hp

/-- An update that was handled was saved. -/
theorem configUpdate_saved {unmarshalKey : Json → Except String JSONWebKey} {lib : Libraries β}
    {env : Env} {uptime : ℤ} {nonce : List UInt8} {newConfig : Config} {g g' : Guarded β} {m : Message}
    (h : (handler unmarshalKey lib env uptime .configUpdate
      (ConfigUpdate.mk nonce (some newConfig))).run g = .ok m g') :
    (saveConfig lib env).run (g.node.edit newConfig.toConfigData) = .ok () g'.node := by
  have hupdate : (update lib env (.replace (some newConfig) g.node.config.chain)).run g.node
      = .ok () g'.node := run_of_onNode (onNode_configUpdate _ _) h
  obtain ⟨d, hd, hsave⟩ := update_ok hupdate
  obtain rfl := Except.ok.inj hd
  exact hsave

end Server

/-! ## What the commands leave on the server -/

/-- A server with the libraries on bytes. -/
def goService (wire : Wire) (yaml : YamlCodec) (parseDuration : String → Except String ℤ)
    (hash : List UInt8 → String) (expireTime : ℤ) (keys : ServerKeys) : Service (List UInt8) :=
  { toWire := wire, lib := goLibraries wire.codec yaml parseDuration hash, expireTime, keys }

section Effects

open Session

variable {wire : Wire} {yaml : YamlCodec} {parseDuration : String → Except String ℤ}
  {hash : List UInt8 → String} {expireTime : ℤ} {keys : ServerKeys}
  {parseURL : String → Except String Unit} {readable : ℕ} {ws : Workstation} {client : Client}
  {coins : wire.jose.Coins}

theorem of_loadClient {σ : Type} {s s' : σ} {client' : Client}
    (hclient : Client.load wire.codec yaml ws ws.clientConfigFile = .ok client)
    (h : (loadClient wire yaml ws).Succeeds s client' s') : client' = client ∧ s' = s := by
  obtain ⟨hload, hs⟩ := of_ofExcept h
  exact ⟨Except.ok.inj (hload.symm.trans hclient), hs⟩

/-- **An update from the command line arrives as it was loaded.**  When `updateconfig` has printed
`OK`, the server has exactly the configuration that `FromDisk` gave the client, every saved field
and the values of all records, although it was encoded for the message, decoded into the object of
the request, trimmed, written to the disk of the server, and read and converted again.  The server
handles one request at a time; no name may have an empty label before its last dot, and no earlier
update may be left in the object of the endpoint. -/
theorem clientUpdateConfig_exact (hcodec : wire.codec.Lawful)
    (hjose : wire.jose.Lawful keys.authKey)
    (hclient : Client.load wire.codec yaml ws ws.clientConfigFile = .ok client)
    (hkey : client.authKey = some keys.authKey) {filename : String} {c : Config}
    (hload : fromDisk (goLibraries wire.codec yaml parseDuration hash) ws.env (Config.new []) filename
      (loadYAML (goLibraries wire.codec yaml parseDuration hash)) ((ws.files filename).map .doc)
      = .ok c)
    (hlabels : ZonesNames NoEmptyLabel c.zones)
    {s : (goService wire yaml parseDuration hash expireTime keys).State}
    {first second : Turn (goService wire yaml parseDuration hash expireTime keys)}
    (hclear : ∀ s₂, ComesTo s first second s₂ →
      ConfigUpdate.config (s₂.objs .configUpdate) = none) {out : String}
    {w : World (goService wire yaml parseDuration hash expireTime keys)}
    (h : (clientUpdateConfig wire yaml
      (serverNetwork (goService wire yaml parseDuration hash expireTime keys) parseURL readable) ws
      coins (goLibraries wire.codec yaml parseDuration hash) [filename]).Succeeds
        ⟨s, [first, second]⟩ out w) :
    out = "OK" ∧ w.server.node.config.toConfigData = c.toConfigData := by
  obtain ⟨client', t, hstart, hsend⟩ := of_bind h
  obtain ⟨rfl, rfl⟩ := of_loadClient hclient hstart
  replace hsend : (sendConfig wire _ ws coins _ client' filename).Succeeds _ _ _ := hsend
  obtain ⟨c', hload', hexchange⟩ := of_ofResult_bind hsend
  obtain rfl : c = c' := Except.ok.inj (hload.symm.trans hload')
  obtain ⟨resp, t, hwrapped, hout⟩ := of_bind hexchange
  cases hout
  have hportable : c.toConfigData.Portable wire.codec := portable_fromDisk (Or.inr rfl) hload
  obtain ⟨s₂, nonce, m, -, hrun⟩ := exchange_ok hcodec hjose hkey
    (r := .configUpdate (some c.toConfigData)) rfl hportable.formed hclear (of_wrap hwrapped)
  -- the server has saved the normal form that it decoded
  obtain ⟨json, yamlText, loaded, hsaved⟩ := saveConfig_ok (configUpdate_saved hrun)
  have hexact := saved_exact hsaved (saved_round hcodec hsaved hportable.normal)
    (zonesLoaded_of_fromDisk hload) hlabels hportable.normal_zones
  have hpeers : c.toConfigData.normal.peers = c.peers := normal_peers hportable.writable
  refine ⟨rfl, ?_⟩
  rw [hexact]
  show ConfigData.mk c.shutdownWait c.authKey c.listen c.toConfigData.normal.peers c.zones = _
  rw [hpeers]

/-- A server that keeps its configuration in bytes. -/
def byteService : Service (List UInt8) :=
  goService plainService.toWire jsonYaml (fun _ => .error "time: invalid duration") (fun _ => "") 30
    plainService.keys

/-- A turn of this server. -/
def byteTurn (now : ℤ) : Turn byteService where
  before := []
  now := now
  reads := [zeroRead]
  coins := ()
  env := calmEnv
  uptime := 5
  left e := (e.request octCodec.unmarshal).new

/-- The server at its start, with one peer and no zone. -/
def byteState : byteService.State :=
  ServerState.init octCodec.unmarshal ⟨onePeerNode.config, fun _ => none⟩

/-- A machine with a client configuration and a configuration to send. -/
def byteStation : Workstation where
  clientConfigFile := "client.yaml"
  files filename :=
    if filename = "client.yaml" then
      ((octCodec.marshal plainService.keys.authKey).toOption).map fun key =>
        render (.obj [("auth_key", key), ("base_url", .str "http://127.0.0.1:5309")])
    else if filename = "border.yaml" then some zonedText
    else none
  env := calmEnv

/-- The test that a session has succeeded. -/
def succeeded {σ α : Type} : Option (Except Failure α × σ) → Bool
  | some (.ok _, _) => true
  | _ => false

theorem of_succeeded {σ α : Type} {x : Session σ α} {s : σ} (h : succeeded (x.run s) = true) :
    ∃ a s', x.Succeeds s a s' := by
  cases hx : x.run s with
  | none =>
    rw [hx] at h
    cases h
  | some r =>
    obtain ⟨outcome, s'⟩ := r
    cases outcome with
    | error e =>
      rw [hx] at h
      cases h
    | ok a => exact ⟨a, s', hx⟩

/-- At its first requests the server comes to them with new objects and its first configuration. -/
theorem comesTo_byteState {s₂ : byteService.State}
    (h : ComesTo byteState (byteTurn 0) (byteTurn 1) s₂) :
    ∃ nonces, s₂ = { byteState with nonces := nonces } := by
  obtain ⟨s₁, nonces, hfirst, hsecond⟩ := h
  cases hfirst
  cases hsecond
  exact ⟨nonces, rfl⟩

/-- The client configuration of the machine has the key of the server. -/
theorem load_byteStation : ∃ client, Client.load octCodec jsonYaml byteStation "client.yaml"
    = .ok client ∧ client.authKey = some plainService.keys.authKey := by
  have htest : ((Client.load octCodec jsonYaml byteStation "client.yaml").toOption.any fun client =>
      decide (client.authKey = some plainService.keys.authKey)) = true := by
    decide +kernel
  cases hload : Client.load octCodec jsonYaml byteStation "client.yaml" with
  | error e =>
    rw [hload] at htest
    cases htest
  | ok client =>
    rw [hload] at htest
    exact ⟨client, rfl, of_decide_eq_true htest⟩

theorem clientUpdateConfig_exact_zoned :
    ∃ c w, fromDisk byteLibraries byteStation.env (Config.new []) "border.yaml"
        (loadYAML byteLibraries) ((byteStation.files "border.yaml").map .doc) = .ok c ∧
      (clientUpdateConfig plainService.toWire jsonYaml
        (serverNetwork byteService (fun _ => .ok ()) 4096) byteStation () byteLibraries
        ["border.yaml"]).Succeeds
          ⟨byteState, [byteTurn 0, byteTurn 1]⟩ "OK" w ∧
      w.server.node.config.toConfigData = c.toConfigData := by
  have hrun : succeeded ((clientUpdateConfig plainService.toWire jsonYaml
      (serverNetwork byteService (fun _ => .ok ()) 4096) byteStation () byteLibraries
        ["border.yaml"]).run ⟨byteState, [byteTurn 0, byteTurn 1]⟩) = true := by
    decide +kernel
  have hloaded : okWith (fun c => decide (ZonesNames NoEmptyLabel c.zones))
      (fromDisk byteLibraries byteStation.env (Config.new []) "border.yaml" (loadYAML byteLibraries)
        ((byteStation.files "border.yaml").map .doc)) = true := by
    decide +kernel
  obtain ⟨out, w, hsucceeds⟩ := of_succeeded hrun
  obtain ⟨c, hload, hlabels⟩ := okWith_eq_true hloaded
  obtain ⟨client, hclient, hkey⟩ := load_byteStation
  have hclear : ∀ s₂, ComesTo byteState (byteTurn 0) (byteTurn 1) s₂ →
      ConfigUpdate.config (s₂.objs .configUpdate) = none := by
    intro s₂ hcomes
    obtain ⟨nonces, rfl⟩ := comesTo_byteState hcomes
    rfl
  obtain ⟨rfl, hdata⟩ := @clientUpdateConfig_exact plainService.toWire jsonYaml
    (fun _ => .error "time: invalid duration") (fun _ => "") 30 plainService.keys (fun _ => .ok ())
    4096 byteStation client () lawful_octCodec (lawful_plainJose _) hclient hkey "border.yaml" c hload
    (of_decide_eq_true hlabels) byteState (byteTurn 0) (byteTurn 1) hclear out w hsucceeds
  exact ⟨c, w, hload, hsucceeds, hdata⟩

end Effects

end Border
