/-
# Do DNS and the load balancer mean the same by a listener?

`createBalancers` takes the host of a listener for the name of a peer and listens on the
addresses of that peer.  `LB.Convert` takes the same host for the text of an address, and
ends the process when it is not.

`dns_agrees_iff` : the answers to a name of an LB record are the addresses of the named
peers exactly when the record that is served under that name holds those very addresses.
-/
import Border.DnsServer
import Border.Launcher

namespace Border

open Dns GoMap NetAddr

/-! ## Agreement -/

/-- An address in its 16-byte form, if it has one. -/
def canonicalIP (ip : IP) : IP := (to16 ip).getD ip

/-- The same addresses, in either form and in any order. -/
def SameIPs (ips ips' : List IP) : Prop :=
  ∀ ip, ip ∈ ips.map canonicalIP ↔ ip ∈ ips'.map canonicalIP

theorem sameIPs_congr_left {ips ips' : List IP} (h : ∀ ip, ip ∈ ips ↔ ip ∈ ips')
    (ips'' : List IP) : SameIPs ips ips'' ↔ SameIPs ips' ips'' := by
  unfold SameIPs
  simp only [List.mem_map, h]

theorem sameIPs_nil_left {ips : List IP} : SameIPs [] ips ↔ ips = [] := by
  constructor
  · intro h
    rw [List.eq_nil_iff_forall_not_mem]
    intro ip hip
    exact absurd ((h _).mpr (List.mem_map_of_mem hip)) List.not_mem_nil
  · rintro rfl ip
    exact Iff.rfl

/-- The queries for a name of the types A and AAAA are answered, and the addresses in
their answers together are the given ones. -/
def Resolves (zones : Zones) (name : String) (ips : List IP) : Prop :=
  ∃ replyA replyAAAA, serveDNS zones [⟨name, .a⟩] = .ok replyA ∧
    serveDNS zones [⟨name, .aaaa⟩] = .ok replyAAAA ∧
    SameIPs (addresses (replyA.answer ++ replyAAAA.answer)) ips

/-- A record holds the given addresses: an A record lists them; every listener of an LB
record has the text of an address as its host, and these are the given ones; and a record
of another type holds none. -/
def Record.Holds (rec : Record) (ips : List IP) : Prop :=
  match rec.type with
  | .other _ => ips = []
  | _ =>
    match rec.value with
    | none => False
    | some (.a a) => SameIPs a.addresses ips
    | some (.lb lb) => (∀ listener ∈ lb.listeners, literalIP listener ≠ none) ∧
        SameIPs (lb.listeners.filterMap literalIP) ips

/-- The record that is served under a name holds the given addresses. -/
def Holds (zones : Zones) (name : String) (ips : List IP) : Prop :=
  match servedRecord zones name with
  | .error _ => False
  | .ok none => ips = []
  | .ok (some rec) => rec.Holds ips

/-- Listeners with the texts of addresses as their hosts. -/
theorem mapM_literalIP_eq_some {listeners : List String}
    (h : ∀ listener ∈ listeners, literalIP listener ≠ none) :
    listeners.mapM literalIP = some (listeners.filterMap literalIP) := by
  induction listeners with
  | nil => rfl
  | cons x xs ih =>
    obtain ⟨ip, hip⟩ := Option.ne_none_iff_exists'.mp (h x List.mem_cons_self)
    rw [List.mapM_cons, ih fun l hl => h l (List.mem_cons_of_mem _ hl), hip,
      List.filterMap_cons_some hip]
    rfl

theorem valueIPs_lb_iff (lb : LBRecord) (ips : List IP) :
    (∃ served, lb.listeners.mapM literalIP = some served ∧ SameIPs served ips) ↔
      (∀ listener ∈ lb.listeners, literalIP listener ≠ none) ∧
        SameIPs (lb.listeners.filterMap literalIP) ips := by
  by_cases h : ∀ listener ∈ lb.listeners, literalIP listener ≠ none
  · rw [mapM_literalIP_eq_some h]
    constructor
    · rintro ⟨served, heq, hsame⟩
      obtain rfl := Option.some.inj heq
      exact ⟨h, hsame⟩
    · exact fun hsame => ⟨_, rfl, hsame.2⟩
  · push Not at h
    obtain ⟨listener, hmem, hnone⟩ := h
    rw [mapM_literalIP_none hmem hnone]
    constructor
    · rintro ⟨served, heq, -⟩
      exact absurd heq (by simp)
    · exact fun hall => absurd hnone (hall.1 listener hmem)

theorem Record.holds_iff (rec : Record) (ips : List IP) :
    rec.Holds ips ↔ ∃ served, rec.servedIPs = some served ∧ SameIPs served ips := by
  have hvalue : (match rec.value with
      | none => False
      | some (.a a) => SameIPs a.addresses ips
      | some (.lb lb) => (∀ listener ∈ lb.listeners, literalIP listener ≠ none) ∧
          SameIPs (lb.listeners.filterMap literalIP) ips) ↔
      ∃ served, valueIPs rec.value = some served ∧ SameIPs served ips := by
    match rec.value with
    | none => simp [valueIPs]
    | some (.a a) => simp [valueIPs]
    | some (.lb lb) => exact (valueIPs_lb_iff lb ips).symm
  unfold Record.Holds Record.servedIPs
  cases rec.type with
  | other type => simp [sameIPs_nil_left]
  | a => exact hvalue
  | lb => exact hvalue

theorem holds_iff (zones : Zones) (name : String) (ips : List IP) :
    Holds zones name ips ↔ ∃ served, servedIPs zones name = some served ∧ SameIPs served ips := by
  unfold Holds servedIPs
  match servedRecord zones name with
  | .error e => simp
  | .ok none => simp [sameIPs_nil_left]
  | .ok (some rec) => exact rec.holds_iff ips

/-- A name resolves to what its record holds. -/
theorem resolves_iff (zones : Zones) (name : String) (ips : List IP) :
    Resolves zones name ips ↔ Holds zones name ips := by
  have hspec := answers_spec zones name
  rw [holds_iff]
  unfold Resolves
  cases hserved : servedIPs zones name with
  | none =>
    rw [hserved] at hspec
    obtain ⟨e, he⟩ := hspec
    constructor
    · rintro ⟨replyA, -, hA, -, -⟩
      simp only [serveDNS, he] at hA
      exact absurd hA (by simp [Except.map])
    · rintro ⟨served, h, -⟩
      exact absurd h (by simp)
  | some served =>
    rw [hserved] at hspec
    obtain ⟨as, aaaas, hA, hAAAA, hmem⟩ := hspec
    have hreplyA : serveDNS zones [⟨name, .a⟩] = .ok (reply as) := by
      simp only [serveDNS, hA, Except.map]
    have hreplyAAAA : serveDNS zones [⟨name, .aaaa⟩] = .ok (reply aaaas) := by
      simp only [serveDNS, hAAAA, Except.map]
    -- an empty answer is turned into NXDOMAIN, which has no answers either
    have hsame := sameIPs_congr_left hmem ips
    rw [← reply_answer as, ← reply_answer aaaas] at hsame
    constructor
    · rintro ⟨replyA, replyAAAA, h1, h2, h3⟩
      rw [hreplyA] at h1
      rw [hreplyAAAA] at h2
      rw [← Except.ok.inj h1, ← Except.ok.inj h2, hsame] at h3
      exact ⟨served, rfl, h3⟩
    · rintro ⟨served', h, h3⟩
      obtain rfl := Option.some.inj h
      exact ⟨_, _, hreplyA, hreplyAAAA, hsame.mpr h3⟩

/-- **What DNS and the load balancer make of a listener.**  In every accepted
configuration the balancers of an LB record listen on the addresses of the peers that its
listeners name; and queries for its name are answered with these addresses exactly when
the record served under that name holds them, as addresses. -/
theorem dns_agrees_iff {c : ConfigData} (haccepted : Accepted c) {key : String} {zone : Zone}
    (hzone : c.zones.lookup key = some (some zone)) {rec : Record}
    (hrec : some rec ∈ zone.records.elems) (htype : rec.type = .lb) :
    ∃ lb, rec.value = some (.lb lb) ∧
      (∀ listener ∈ lb.listeners, ∃ host port peer, splitHostPort listener = .ok (host, port) ∧
        findPeer host c.peers.elems = .ok (some peer) ∧
        namedPeerIPs c.peers.elems listener = peer.ips.elems) ∧
      (∀ net order peerName balancers, createBalancers net order peerName c = .ok balancers →
        ∃ bs, recordBalancers net c.peers.elems (some rec) = .ok bs ∧ bs ⊆ balancers ∧
          bs.map Balancer.listenerIP = (lb.namedIPs c.peers.elems).map ipString) ∧
      (Resolves c.zones rec.name (lb.namedIPs c.peers.elems) ↔
        Holds c.zones rec.name (lb.namedIPs c.peers.elems)) := by
  obtain ⟨rec', heq, hlb⟩ := haccepted.records key zone hzone _ hrec
  obtain rfl := Option.some.inj heq
  obtain ⟨lb, hvalue, hlisteners⟩ := hlb htype
  refine ⟨lb, hvalue, ?_, ?_, resolves_iff _ _ _⟩
  · intro listener hmem
    obtain ⟨⟨ips, port⟩, hresolve⟩ := hlisteners listener hmem
    obtain ⟨host, peer, hsplit, hfind, hips⟩ := resolveListener_ok hresolve
    refine ⟨host, port, peer, hsplit, hfind, ?_⟩
    unfold namedPeerIPs
    rw [hresolve, ← hips]
  · intro net order peerName balancers hcreate
    obtain ⟨z, hz, hall⟩ := createBalancers_ok hcreate hzone
    obtain rfl := Option.some.inj hz
    obtain ⟨bs, hbs, hsub⟩ := hall _ hrec
    exact ⟨bs, hbs, hsub, recordBalancers_listenerIP htype hvalue hbs⟩

/-! ## A listener that names a peer -/

/-- An LB record with one listener. -/
def balancerRecord (listener : String) : Record where
  type := .lb
  name := "balancer.test.home.arpa."
  literalValue := none
  value := some (.lb {
    listeners := [listener]
    kind := "tcp"
    backends := ["127.0.0.1:8001", "127.0.0.1:8002"]
    simultaneousConnections := defaultSimultaneousConnections
    maxConnectionsPerAddress := defaultMaxConnectionsPerAddress
    connectionTimeout := 0
    ttl := 60
    tls := none
    healthCheck := [] })

/-- A zone with that record. -/
def balancerZone (listener : String) : Zone where
  soa := some ⟨"test.home.arpa.", "administrator.test.home.arpa.", 60, 1, 60, 1, 120⟩
  ns := some ⟨["test.home.arpa."], 60⟩
  records := some [some (balancerRecord listener)]

/-- A configuration with one peer and that zone. -/
def balancerConfig (peerName : String) (ips : List IP) (listener : String) : ConfigData :=
  { ConfigData.zero with
    peers := some [some ⟨some ips, "127.0.0.1:5309", some ⟨[], peerName, "A256KW"⟩⟩]
    zones := Finmap.singleton "test.home.arpa." (some (balancerZone listener)) }

def loopback4 : IP := v4InV6Prefix ++ [127, 0, 0, 1]

def loopback6 : IP := List.replicate 15 0 ++ [1]

theorem createBalancers_balancerConfig :
    ∃ balancers, createBalancers quietNetwork (sortedOrder String (Option Zone)) "127.0.0.1"
      (balancerConfig "127.0.0.1" [loopback4] "127.0.0.1:8000") = .ok balancers :=
  ⟨_, rfl⟩

/-- A listener that names a peer by its own address is answered with that address. -/
theorem dns_agrees_addressName :
    Resolves (balancerConfig "127.0.0.1" [loopback4] "127.0.0.1:8000").zones
      "balancer.test.home.arpa." [loopback4] := by
  obtain ⟨balancers, hcreate⟩ := createBalancers_balancerConfig
  have hzone : (balancerConfig "127.0.0.1" [loopback4] "127.0.0.1:8000").zones.lookup
      "test.home.arpa." = some (some (balancerZone "127.0.0.1:8000")) := rfl
  obtain ⟨lb, hvalue, -, -, hiff⟩ := dns_agrees_iff (accepted_of_createBalancers hcreate) hzone
    (List.mem_singleton.mpr rfl) rfl
  obtain rfl := RecordValue.lb.inj (Option.some.inj hvalue)
  have hliteral : literalIP "127.0.0.1:8000" = some loopback4 := by decide +kernel
  refine hiff.mpr ⟨?_, ?_⟩
  · intro listener hmem
    rw [List.mem_singleton.mp hmem, hliteral]
    simp
  · show SameIPs (["127.0.0.1:8000"].filterMap literalIP) [loopback4]
    rw [List.filterMap_cons_some hliteral]
    exact fun ip => Iff.rfl

/-- A listener that names a peer as `example.yaml` does: the balancers
listen on the addresses of the peer, and the first query for the record's name ends the
process. -/
theorem dns_exits_peerName :
    (∃ balancers, createBalancers quietNetwork (sortedOrder String (Option Zone)) "foo"
        (balancerConfig "foo" [loopback6, loopback4] "foo:8000") = .ok balancers ∧
      balancers.map Balancer.listenSpec = ["[::1]:8000", "127.0.0.1:8000"]) ∧
    serveDNS (balancerConfig "foo" [loopback6, loopback4] "foo:8000").zones
        [⟨"balancer.test.home.arpa.", .a⟩]
      = .error (.exit "Invalid IP after Peer conversion (\"foo\") for listener \"foo:8000\"") ∧
    ¬ Resolves (balancerConfig "foo" [loopback6, loopback4] "foo:8000").zones
      "balancer.test.home.arpa." [loopback6, loopback4] := by
  have hserve : serveDNS (balancerConfig "foo" [loopback6, loopback4] "foo:8000").zones
        [⟨"balancer.test.home.arpa.", .a⟩]
      = .error (.exit "Invalid IP after Peer conversion (\"foo\") for listener \"foo:8000\"") := by
    decide +kernel
  refine ⟨⟨_, rfl, by decide +kernel⟩, hserve, ?_⟩
  rintro ⟨replyA, -, hA, -⟩
  rw [hserve] at hA
  exact absurd hA (by simp)

end Border
