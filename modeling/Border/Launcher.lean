/-
# The balancers a node starts

Model of `createBalancers` in `pkg/launcher/launcher.go` and of `Balancer.Start`: for every
listener of every LB record the host is looked up as the name of a peer, and a balancer is
started on each address of that peer.

`createBalancers_ok` says what is known of a configuration that it accepts, and
`recordBalancers_listenerIP` on which addresses the balancers of a record listen.
-/
import Border.Balancer
import Border.Config

namespace Border

open GoJson GoMap NetAddr

/-! ## Starting a balancer -/

/-- What the network answers: the error of listening on an address, and that of the HTTP
server on it in its first moments. -/
structure Network where
  listen : String → Option String
  serve : String → Option String

/-- A network on which everything succeeds. -/
def quietNetwork : Network := ⟨fun _ => none, fun _ => none⟩

/-- `Balancer.Start`. -/
def Balancer.start (net : Network) (b : Balancer) : Except Failure Unit :=
  match net.listen b.listenSpec with
  | some e => .error (.error ("Error enabling load balancer: " ++ e))
  | none =>
    match b.kind with
    | .tcp => .ok ()
    | .http =>
      match net.serve b.listenSpec with
      | some e => .error (.error e)
      | none => .ok ()
    | .other kind => .error (.error ("Balancer type " ++ quoted kind ++ " is unsupported"))

/-- Make a balancer for an address and start it. -/
def startBalancer (net : Network) (name listenSpec : String) (bc : BalancerConfig) :
    Except Failure Balancer :=
  match Balancer.init listenSpec bc with
  | none => .error (.exit ("Invalid address in listener " ++ quoted listenSpec))
  | some b =>
    match b.start net with
    | .error e => .error (e.wrap ("Could not start balancer " ++ quoted name ++ ": "))
    | .ok _ => .ok b

/-! ## `createBalancers` -/

/-- The settings of the balancers of an LB record. -/
def LBRecord.balancerConfig (lb : LBRecord) : BalancerConfig where
  kind := .ofString lb.kind
  backends := lb.backends
  simultaneousConnections := lb.simultaneousConnections
  maxConnectionsPerAddress := lb.maxConnectionsPerAddress
  connectionTimeout := lb.connectionTimeout

/-- The addresses of the peer that a listener names, and the port. -/
def resolveListener (peers : List (Option Peer)) (listener : String) :
    Except Failure (List IP × String) :=
  match splitHostPort listener with
  | .error e =>
    .error (.error ("Invalid listener " ++ quoted listener ++ ": could not parse: " ++ e))
  | .ok (host, port) =>
    match findPeer host peers with
    | .error e => .error (e.wrap ("Host " ++ quoted host ++ " is not a peer: "))
    | .ok none => .error nilDereference
    | .ok (some peer) => .ok (peer.ips.elems, port)

/-- The balancers of one listener. -/
def listenerBalancers (net : Network) (peers : List (Option Peer)) (name : String)
    (bc : BalancerConfig) (listener : String) : Except Failure (List Balancer) := do
  let (ips, port) ← resolveListener peers listener
  ips.mapM fun ip => startBalancer net name (joinHostPort (ipString ip) port) bc

/-- The balancers of one record. -/
def recordBalancers (net : Network) (peers : List (Option Peer)) :
    Option Record → Except Failure (List Balancer)
  | none => .error nilDereference
  | some rec =>
    match rec.type with
    | .lb =>
      match rec.value with
      | some (.lb lb) =>
        (lb.listeners.mapM (listenerBalancers net peers rec.name lb.balancerConfig)).map
          List.flatten
      | _ => .error (.error ("LB record for " ++ quoted rec.name ++ " was not parsed correctly"))
    | _ => .ok []

/-- The balancers of one zone. -/
def zoneBalancers (net : Network) (peers : List (Option Peer)) :
    Option Zone → Except Failure (List Balancer)
  | none => .error nilDereference
  | some zone => (zone.records.elems.mapM (recordBalancers net peers)).map List.flatten

/-- `Server.createBalancers`.  The name of the node is not read. -/
def createBalancers (net : Network) (order : RangeOrder String (Option Zone))
    (_peerName : String) (c : ConfigData) : Except Failure (List Balancer) :=
  ((order.keys c.zones).mapM fun key =>
    zoneBalancers net c.peers.elems ((c.zones.lookup key).getD none)).map List.flatten

/-! ## On which addresses the balancers listen -/

/-- The addresses of the peer that a listener names. -/
def namedPeerIPs (peers : List (Option Peer)) (listener : String) : List IP :=
  match resolveListener peers listener with
  | .error _ => []
  | .ok (ips, _) => ips

/-- The addresses of the peers named by the listeners of an LB record. -/
def LBRecord.namedIPs (peers : List (Option Peer)) (lb : LBRecord) : List IP :=
  lb.listeners.flatMap (namedPeerIPs peers)

/-- Every listener of every LB record splits, and its host is the name of a peer. -/
structure Accepted (c : ConfigData) : Prop where
  zones : ∀ key zone, c.zones.lookup key = some zone → ∃ z, zone = some z
  records : ∀ key zone, c.zones.lookup key = some (some zone) →
    ∀ r ∈ zone.records.elems, ∃ rec, r = some rec ∧
      (rec.type = .lb → ∃ lb, rec.value = some (.lb lb) ∧
        ∀ listener ∈ lb.listeners, ∃ r, resolveListener c.peers.elems listener = .ok r)

theorem resolveListener_ok {peers : List (Option Peer)} {listener : String} {ips : List IP}
    {port : String} (h : resolveListener peers listener = .ok (ips, port)) :
    ∃ host peer, splitHostPort listener = .ok (host, port) ∧
      findPeer host peers = .ok (some peer) ∧ ips = peer.ips.elems := by
  unfold resolveListener at h
  cases hsplit : splitHostPort listener with
  | error e =>
    rw [hsplit] at h
    exact absurd h (by simp)
  | ok hp =>
    rw [hsplit] at h
    cases hfind : findPeer hp.1 peers with
    | error e =>
      simp only [hfind] at h
      exact absurd h (by simp)
    | ok peer =>
      cases peer with
      | none =>
        simp only [hfind] at h
        exact absurd h (by simp)
      | some peer =>
        simp only [hfind] at h
        obtain ⟨hips, hport⟩ := Prod.mk.inj (Except.ok.inj h)
        exact ⟨hp.1, peer, by rw [← hport], hfind, hips.symm⟩

/-- A balancer that was started listens where it was told to. -/
theorem startBalancer_ok {net : Network} {name : String} {ip : IP} {port : String}
    {bc : BalancerConfig} {b : Balancer} (hport : PortText port)
    (h : startBalancer net name (joinHostPort (ipString ip) port) bc = .ok b) :
    b.listenSpec = joinHostPort (ipString ip) port ∧ b.listenerIP = ipString ip := by
  unfold startBalancer Balancer.init at h
  -- so the `Fatalf` of `Init` is out of reach here
  rw [splitHostPort_joinHostPort (hostText_ipString ip) hport] at h
  dsimp only at h
  split at h
  · exact absurd h (by simp)
  · rw [← Except.ok.inj h]
    exact ⟨rfl, rfl⟩

section Started

variable {net : Network} {peers : List (Option Peer)}

/-- The balancers of a listener listen on the addresses of the peer it names. -/
theorem listenerBalancers_listenerIP {name : String} {bc : BalancerConfig} {listener : String}
    {bs : List Balancer} (h : listenerBalancers net peers name bc listener = .ok bs) :
    bs.map Balancer.listenerIP = (namedPeerIPs peers listener).map ipString := by
  obtain ⟨⟨ips, port⟩, hresolve, hstart⟩ := bind_ok h
  obtain ⟨host, peer, hsplit, -, -⟩ := resolveListener_ok hresolve
  have hnamed : namedPeerIPs peers listener = ips := by
    unfold namedPeerIPs
    rw [hresolve]
  rw [hnamed]
  apply map_of_mapM _ hstart
  intro ip _ b hb
  exact (startBalancer_ok (portText_of_splitHostPort hsplit) hb).2

/-- **The balancers of an LB record listen on the addresses of the peers named by its
listeners.** -/
theorem recordBalancers_listenerIP {rec : Record} {lb : LBRecord} {bs : List Balancer}
    (htype : rec.type = .lb) (hvalue : rec.value = some (.lb lb))
    (h : recordBalancers net peers (some rec) = .ok bs) :
    bs.map Balancer.listenerIP = (lb.namedIPs peers).map ipString := by
  simp only [recordBalancers, htype, hvalue] at h
  obtain ⟨bss, hbss, rfl⟩ := map_ok h
  have hmap := map_of_mapM (g := List.map Balancer.listenerIP)
    (fun listener _ bs hbs => listenerBalancers_listenerIP hbs) hbss
  unfold LBRecord.namedIPs
  rw [List.map_flatten, hmap, List.map_flatMap, List.flatMap_def]

theorem recordBalancers_ok {r : Option Record} {bs : List Balancer}
    (h : recordBalancers net peers r = .ok bs) :
    ∃ rec, r = some rec ∧ (rec.type = .lb → ∃ lb, rec.value = some (.lb lb) ∧
      ∀ listener ∈ lb.listeners, ∃ r, resolveListener peers listener = .ok r) := by
  cases r with
  | none => exact absurd h (by simp [recordBalancers])
  | some rec =>
    refine ⟨rec, rfl, fun htype => ?_⟩
    simp only [recordBalancers, htype] at h
    split at h
    next lb hvalue =>
      refine ⟨lb, hvalue, fun listener hmem => ?_⟩
      obtain ⟨bss, hbss, -⟩ := map_ok h
      obtain ⟨bs', -, hbs'⟩ := exists_of_mapM hbss hmem
      obtain ⟨r, hr, -⟩ := bind_ok hbs'
      exact ⟨r, hr⟩
    next => exact absurd h (by simp)

theorem zoneBalancers_ok {zone : Option Zone} {bs : List Balancer}
    (h : zoneBalancers net peers zone = .ok bs) :
    ∃ z, zone = some z ∧ ∀ r ∈ z.records.elems,
      ∃ bs', recordBalancers net peers r = .ok bs' ∧ bs' ⊆ bs := by
  cases zone with
  | none => exact absurd h (by simp [zoneBalancers])
  | some z =>
    refine ⟨z, rfl, fun r hr => ?_⟩
    obtain ⟨bss, hbss, rfl⟩ := map_ok h
    obtain ⟨bs', hmem, hbs'⟩ := exists_of_mapM hbss hr
    exact ⟨bs', hbs', fun b hb => List.mem_flatten.mpr ⟨bs', hmem, hb⟩⟩

end Started

/-- The balancers of every record are among those that are started. -/
theorem createBalancers_ok {net : Network} {order : RangeOrder String (Option Zone)}
    {peerName : String} {c : ConfigData} {balancers : List Balancer}
    (h : createBalancers net order peerName c = .ok balancers) {key : String} {zone : Option Zone}
    (hzone : c.zones.lookup key = some zone) :
    ∃ z, zone = some z ∧ ∀ r ∈ z.records.elems,
      ∃ bs, recordBalancers net c.peers.elems r = .ok bs ∧ bs ⊆ balancers := by
  obtain ⟨bss, hbss, rfl⟩ := map_ok h
  have hkey : key ∈ order.keys c.zones := by
    rw [order.mem_keys]
    exact Finmap.mem_iff.mpr ⟨zone, hzone⟩
  obtain ⟨bs, hmem, hbs⟩ := exists_of_mapM hbss hkey
  rw [hzone] at hbs
  obtain ⟨z, hz, hall⟩ := zoneBalancers_ok hbs
  refine ⟨z, hz, fun r hr => ?_⟩
  obtain ⟨bs', hbs', hsub⟩ := hall r hr
  exact ⟨bs', hbs', fun b hb => List.mem_flatten.mpr ⟨bs, hmem, hsub hb⟩⟩

/-- **A configuration whose balancers were started is accepted.** -/
theorem accepted_of_createBalancers {net : Network} {order : RangeOrder String (Option Zone)}
    {peerName : String} {c : ConfigData} {balancers : List Balancer}
    (h : createBalancers net order peerName c = .ok balancers) : Accepted c := by
  constructor
  · intro key zone hzone
    obtain ⟨z, hz, -⟩ := createBalancers_ok h hzone
    exact ⟨z, hz⟩
  · intro key zone hzone r hr
    obtain ⟨z, hz, hall⟩ := createBalancers_ok h hzone
    obtain rfl := Option.some.inj hz
    obtain ⟨bs, hbs, -⟩ := hall r hr
    exact recordBalancers_ok hbs

end Border
