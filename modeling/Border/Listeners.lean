/-
# The addresses a node balances on

The loops of `createBalancers` call `Init` and `Start` for one address after the other, up to
the first error.  Here these calls are laid out as a list of tasks.

* `createBalancers_eq_tasks` : the loops do the tasks one after the other;
* `createBalancers_own_iff` : on which addresses a node balances, and when these are its own.
-/
import Border.Election
import Border.Launcher

namespace Border

open GoJson GoMap NetAddr

/-! ## The loops as a list of tasks -/

/-- One call of `Init` and `Start`: the name of the record, the address, and the settings. -/
structure StartTask where
  name : String
  listenSpec : String
  config : BalancerConfig

/-- What the loops do next: start a balancer, or return an error. -/
abbrev Task := Except Failure StartTask

/-- The tasks of one listener. -/
def listenerTasks (peers : List (Option Peer)) (name : String) (bc : BalancerConfig)
    (listener : String) : List Task :=
  match resolveListener peers listener with
  | .error e => [.error e]
  | .ok (ips, port) => ips.map fun ip => .ok ⟨name, joinHostPort (ipString ip) port, bc⟩

/-- The tasks of one record. -/
def recordTasks (peers : List (Option Peer)) : Option Record → List Task
  | none => [.error nilDereference]
  | some rec =>
    match rec.type with
    | .lb =>
      match rec.value with
      | some (.lb lb) => lb.listeners.flatMap (listenerTasks peers rec.name lb.balancerConfig)
      | _ =>
        [.error (.error ("LB record for " ++ quoted rec.name ++ " was not parsed correctly"))]
    | _ => []

/-- The tasks of one zone. -/
def zoneTasks (peers : List (Option Peer)) : Option Zone → List Task
  | none => [.error nilDereference]
  | some zone => zone.records.elems.flatMap (recordTasks peers)

/-- The tasks of `createBalancers`. -/
def balancerTasks (order : RangeOrder String (Option Zone)) (c : ConfigData) : List Task :=
  (order.keys c.zones).flatMap fun key =>
    zoneTasks c.peers.elems ((c.zones.lookup key).getD none)

/-- A task on a network where nothing is open yet. -/
def Task.run (net : Network) : Task → Except Failure Balancer
  | .error e => .error e
  | .ok t => startBalancer net t.name t.listenSpec t.config

/-- Nested loops that collect their results, as one loop. -/
theorem mapM_flatMap {α β γ : Type} (f : α → List β) (g : β → Except Failure γ) (l : List α) :
    (l.flatMap f).mapM g = (l.mapM fun a => (f a).mapM g).map List.flatten := by
  induction l with
  | nil => rfl
  | cons a l ih =>
    rw [List.flatMap_cons, List.mapM_append, List.mapM_cons, ih]
    cases (f a).mapM g with
    | error e => rfl
    | ok bs =>
      cases l.mapM fun a => (f a).mapM g with
      | error e => rfl
      | ok bss => rfl

theorem mapM_congr {α β : Type} {f g : α → Except Failure β} {l : List α}
    (h : ∀ a ∈ l, f a = g a) : l.mapM f = l.mapM g := by
  induction l with
  | nil => rfl
  | cons a l ih =>
    rw [List.mapM_cons, List.mapM_cons, h a List.mem_cons_self,
      ih fun b hb => h b (List.mem_cons_of_mem _ hb)]

theorem run_ok (net : Network) (t : StartTask) :
    Task.run net (.ok t) = startBalancer net t.name t.listenSpec t.config := rfl

theorem listenerBalancers_eq_tasks (net : Network) (peers : List (Option Peer)) (name : String)
    (bc : BalancerConfig) (listener : String) :
    listenerBalancers net peers name bc listener
      = (listenerTasks peers name bc listener).mapM (Task.run net) := by
  unfold listenerBalancers listenerTasks
  cases resolveListener peers listener with
  | error e => rfl
  | ok r =>
    obtain ⟨ips, port⟩ := r
    show ips.mapM _ = (ips.map _).mapM _
    rw [List.mapM_map]
    apply mapM_congr
    intro ip hip
    rw [Function.comp_apply, run_ok]

/-- A task that is an error is the last one. -/
theorem mapM_run_error (net : Network) (e : Failure) :
    ([.error e] : List Task).mapM (Task.run net) = .error e := rfl

theorem recordBalancers_eq_tasks (net : Network) (peers : List (Option Peer))
    (r : Option Record) :
    recordBalancers net peers r = (recordTasks peers r).mapM (Task.run net) := by
  cases r with
  | none => rfl
  | some rec =>
    obtain ⟨type, name, literalValue, value⟩ := rec
    cases type with
    | a | other => rfl
    | lb =>
      match value with
      | none | some (.a _) => exact (mapM_run_error net _).symm
      | some (.lb lb) =>
        show (lb.listeners.mapM (listenerBalancers net peers name lb.balancerConfig)).map
          List.flatten = (lb.listeners.flatMap _).mapM _
        rw [mapM_flatMap, mapM_congr fun listener _ =>
          listenerBalancers_eq_tasks net peers name lb.balancerConfig listener]

theorem zoneBalancers_eq_tasks (net : Network) (peers : List (Option Peer))
    (zone : Option Zone) :
    zoneBalancers net peers zone = (zoneTasks peers zone).mapM (Task.run net) := by
  cases zone with
  | none => rfl
  | some z =>
    unfold zoneBalancers zoneTasks
    dsimp only
    rw [mapM_flatMap, mapM_congr fun r _ => recordBalancers_eq_tasks net peers r]

/-- **The loops do their tasks one after the other.** -/
theorem createBalancers_eq_tasks (net : Network) (order : RangeOrder String (Option Zone))
    (peerName : String) (c : ConfigData) :
    createBalancers net order peerName c = (balancerTasks order c).mapM (Task.run net) := by
  unfold createBalancers balancerTasks
  rw [mapM_flatMap, mapM_congr fun key _ => zoneBalancers_eq_tasks net c.peers.elems _]

/-! ## On which addresses a node balances -/

/-- An LB record of the configuration has that listener. -/
def HasListener (c : ConfigData) (listener : String) : Prop :=
  ∃ key zone rec lb, c.zones.lookup key = some (some zone) ∧ some rec ∈ zone.records.elems ∧
    rec.type = .lb ∧ rec.value = some (.lb lb) ∧ listener ∈ lb.listeners

/-- An LB record has a listener `host:port`, and the address is `ip:port` for an IP of the peer
of that name. -/
def ListensOn (c : ConfigData) (host addr : String) : Prop :=
  ∃ listener port peer ip, HasListener c listener ∧ splitHostPort listener = .ok (host, port) ∧
    findPeer host c.peers.elems = .ok (some peer) ∧ ip ∈ peer.ips.elems ∧
    joinHostPort (ipString ip) port = addr

/-- The address of a task. -/
def Task.address : Task → Option String
  | .error _ => none
  | .ok t => some t.listenSpec

/-- The balancer of a task that succeeds. -/
theorem Task.run_ok {net : Network} {t : Task} {b : Balancer} (h : t.run net = .ok b) :
    t.address = some b.listenSpec := by
  cases t with
  | error e => exact absurd h (by simp [Task.run])
  | ok t =>
    show some t.listenSpec = _
    unfold Task.run startBalancer Balancer.init at h
    dsimp only at h
    split at h
    · exact absurd h (by simp)
    · rename_i b' hinit
      split at hinit
      · exact absurd hinit (by simp)
      · split at h
        · exact absurd h (by simp)
        · rw [← Except.ok.inj h, ← Option.some.inj hinit]

theorem mem_listenerTasks {peers : List (Option Peer)} (name : String) (bc : BalancerConfig)
    {listener addr : String} :
    (∃ t ∈ listenerTasks peers name bc listener, t.address = some addr) ↔
      ∃ host port peer ip, splitHostPort listener = .ok (host, port) ∧
        findPeer host peers = .ok (some peer) ∧ ip ∈ peer.ips.elems ∧
        joinHostPort (ipString ip) port = addr := by
  unfold listenerTasks
  constructor
  · rintro ⟨t, ht, haddr⟩
    cases hresolve : resolveListener peers listener with
    | error e =>
      rw [hresolve] at ht
      rw [List.mem_singleton.mp ht] at haddr
      exact absurd haddr (by simp [Task.address])
    | ok r =>
      obtain ⟨ips, port⟩ := r
      rw [hresolve] at ht
      obtain ⟨ip, hip, rfl⟩ := List.mem_map.mp ht
      obtain ⟨host, peer, hsplit, hfind, rfl⟩ := resolveListener_ok hresolve
      exact ⟨host, port, peer, ip, hsplit, hfind, hip, Option.some.inj haddr⟩
  · rintro ⟨host, port, peer, ip, hsplit, hfind, hip, rfl⟩
    have hresolve : resolveListener peers listener = .ok (peer.ips.elems, port) := by
      simp only [resolveListener, hsplit, hfind]
    rw [hresolve]
    exact ⟨_, List.mem_map_of_mem hip, rfl⟩

theorem mem_recordTasks {peers : List (Option Peer)} {r : Option Record} {addr : String} :
    (∃ t ∈ recordTasks peers r, t.address = some addr) ↔
      ∃ rec lb, r = some rec ∧ rec.type = .lb ∧ rec.value = some (.lb lb) ∧
        ∃ listener ∈ lb.listeners,
          ∃ t ∈ listenerTasks peers rec.name lb.balancerConfig listener,
            t.address = some addr := by
  constructor
  · rintro ⟨t, ht, haddr⟩
    cases r with
    | none =>
      rw [List.mem_singleton.mp ht] at haddr
      exact absurd haddr (by simp [Task.address])
    | some rec =>
      unfold recordTasks at ht
      dsimp only at ht
      split at ht
      · rename_i htype
        split at ht
        · rename_i lb hvalue
          obtain ⟨listener, hlistener, ht⟩ := List.mem_flatMap.mp ht
          exact ⟨rec, lb, rfl, htype, hvalue, listener, hlistener, t, ht, haddr⟩
        · rw [List.mem_singleton.mp ht] at haddr
          exact absurd haddr (by simp [Task.address])
      · exact absurd ht List.not_mem_nil
  · rintro ⟨rec, lb, rfl, htype, hvalue, listener, hlistener, t, ht, haddr⟩
    refine ⟨t, ?_, haddr⟩
    simp only [recordTasks, htype, hvalue]
    exact List.mem_flatMap.mpr ⟨listener, hlistener, ht⟩

theorem mem_zoneTasks {peers : List (Option Peer)} {zone : Option Zone} {addr : String} :
    (∃ t ∈ zoneTasks peers zone, t.address = some addr) ↔
      ∃ z, zone = some z ∧ ∃ r ∈ z.records.elems,
        ∃ t ∈ recordTasks peers r, t.address = some addr := by
  constructor
  · rintro ⟨t, ht, haddr⟩
    cases zone with
    | none =>
      rw [List.mem_singleton.mp ht] at haddr
      exact absurd haddr (by simp [Task.address])
    | some z =>
      obtain ⟨r, hr, ht⟩ := List.mem_flatMap.mp ht
      exact ⟨z, rfl, r, hr, t, ht, haddr⟩
  · rintro ⟨z, rfl, r, hr, t, ht, haddr⟩
    exact ⟨t, List.mem_flatMap.mpr ⟨r, hr, ht⟩, haddr⟩

/-- **The addresses of the tasks.**  Whose listener it is makes no difference. -/
theorem mem_balancerTasks (order : RangeOrder String (Option Zone)) {c : ConfigData}
    {addr : String} :
    (∃ t ∈ balancerTasks order c, t.address = some addr) ↔ ∃ host, ListensOn c host addr := by
  constructor
  · rintro ⟨t, ht, haddr⟩
    obtain ⟨key, -, ht⟩ := List.mem_flatMap.mp ht
    obtain ⟨z, hz, r, hr, hrecord⟩ := mem_zoneTasks.mp ⟨t, ht, haddr⟩
    obtain ⟨rec, lb, rfl, htype, hvalue, listener, hlistener, htask⟩ := mem_recordTasks.mp hrecord
    obtain ⟨host, port, peer, ip, hsplit, hfind, hip, haddr⟩ := mem_listenerTasks _ _ |>.mp htask
    have hlookup : c.zones.lookup key = some (some z) := by
      cases hkey : c.zones.lookup key with
      | none =>
        rw [hkey] at hz
        exact absurd hz (by simp)
      | some zone =>
        rw [hkey] at hz
        rw [← hz]
        rfl
    exact ⟨host, listener, port, peer, ip, ⟨key, z, rec, lb, hlookup, hr, htype, hvalue, hlistener⟩,
      hsplit, hfind, hip, haddr⟩
  · rintro ⟨host, listener, port, peer, ip, ⟨key, z, rec, lb, hlookup, hr, htype, hvalue,
      hlistener⟩, hsplit, hfind, hip, haddr⟩
    have htask := mem_listenerTasks rec.name lb.balancerConfig |>.mpr
      ⟨host, port, peer, ip, hsplit, hfind, hip, haddr⟩
    have hrecord := mem_recordTasks.mpr
      ⟨rec, lb, rfl, htype, hvalue, listener, hlistener, htask⟩
    obtain ⟨t, ht, haddr⟩ := mem_zoneTasks.mpr ⟨z, rfl, some rec, hr, hrecord⟩
    refine ⟨t, List.mem_flatMap.mpr ⟨key, ?_, ?_⟩, haddr⟩
    · rw [order.mem_keys]
      exact Finmap.mem_iff.mpr ⟨_, hlookup⟩
    · rw [hlookup]
      exact ht

/-- The addresses of the balancers are those of the tasks. -/
theorem mem_listenSpec_createBalancers {net : Network} {order : RangeOrder String (Option Zone)}
    {peerName : String} {c : ConfigData} {balancers : List Balancer}
    (h : createBalancers net order peerName c = .ok balancers) {addr : String} :
    addr ∈ balancers.map Balancer.listenSpec ↔ ∃ host, ListensOn c host addr := by
  rw [createBalancers_eq_tasks] at h
  have hmap : balancers.map (fun b => some b.listenSpec) = (balancerTasks order c).map Task.address :=
    map_of_mapM (fun t _ b hb => (Task.run_ok hb).symm) h
  rw [← mem_balancerTasks order, List.mem_map]
  have hiff : (∃ b ∈ balancers, some b.listenSpec = some addr) ↔
      ∃ t ∈ balancerTasks order c, t.address = some addr := by
    rw [← List.mem_map, hmap, List.mem_map]
  rw [← hiff]
  simp only [Option.some.injEq]

/-- **Whose addresses a node balances on.**  The addresses are those of the node exactly when
every address of another peer's listener is also one of its own: the name of the node is not
looked at. -/
theorem createBalancers_own_iff {net : Network} {order : RangeOrder String (Option Zone)}
    {peerName : String} {c : ConfigData} {balancers : List Balancer}
    (h : createBalancers net order peerName c = .ok balancers) :
    (∀ addr, addr ∈ balancers.map Balancer.listenSpec ↔ ListensOn c peerName addr) ↔
      ∀ host addr, ListensOn c host addr → ListensOn c peerName addr := by
  constructor
  · intro hown host addr hlisten
    rw [← hown, mem_listenSpec_createBalancers h]
    exact ⟨host, hlisten⟩
  · intro hsub addr
    rw [mem_listenSpec_createBalancers h]
    exact ⟨fun ⟨host, hlisten⟩ => hsub host addr hlisten, fun hlisten => ⟨peerName, hlisten⟩⟩

/-- The address of the `n`th node of a cluster. -/
def nodeIP (n : UInt8) : IP := v4InV6Prefix ++ [10, 0, 0, n]

/-- An LB record with the given kind and listeners. -/
def clusterRecord (kind : String) (listeners : List String) : Record where
  type := .lb
  name := "balancer.test.home.arpa."
  literalValue := none
  value := some (.lb {
    listeners := listeners
    kind := kind
    backends := ["10.0.1.1:8001"]
    simultaneousConnections := defaultSimultaneousConnections
    maxConnectionsPerAddress := defaultMaxConnectionsPerAddress
    connectionTimeout := 0
    ttl := 60
    tls := none
    healthCheck := [] })

/-- The nodes foo and bar, and one LB record. -/
def clusterConfig (kind : String) (listeners : List String) : ConfigData :=
  { ConfigData.zero with
    peers := some [some ⟨some [nodeIP 1], "10.0.0.1:5309", some ⟨[], "foo", "A256KW"⟩⟩,
      some ⟨some [nodeIP 2], "10.0.0.2:5309", some ⟨[], "bar", "A256KW"⟩⟩]
    zones := Finmap.singleton "test.home.arpa."
      (some ⟨none, none, some [some (clusterRecord kind listeners)]⟩) }

theorem hasListener_clusterConfig {kind : String} {listeners : List String} {listener : String}
    (h : HasListener (clusterConfig kind listeners) listener) : listener ∈ listeners := by
  obtain ⟨key, zone, rec, lb, hzone, hrec, -, hvalue, hlistener⟩ := h
  have hkey : key = "test.home.arpa." := by
    rw [← Finmap.mem_singleton, Finmap.mem_iff]
    exact ⟨_, hzone⟩
  subst hkey
  obtain rfl := Option.some.inj (Option.some.inj hzone)
  obtain rfl := Option.some.inj (List.mem_singleton.mp hrec)
  obtain rfl := RecordValue.lb.inj (Option.some.inj hvalue)
  exact hlistener

/-- With the listener of foo alone, foo balances on its own address. -/
theorem createBalancers_own_foo :
    ∃ balancers, createBalancers quietNetwork (sortedOrder _ _) "foo"
        (clusterConfig "tcp" ["foo:8000"]) = .ok balancers ∧
      balancers.map Balancer.listenSpec = ["10.0.0.1:8000"] ∧
      ∀ addr, addr ∈ balancers.map Balancer.listenSpec ↔
        ListensOn (clusterConfig "tcp" ["foo:8000"]) "foo" addr := by
  have hspecs : (createBalancers quietNetwork (sortedOrder _ _) "foo"
      (clusterConfig "tcp" ["foo:8000"])).map (List.map Balancer.listenSpec)
        = .ok ["10.0.0.1:8000"] := by decide +kernel
  obtain ⟨balancers, hcreate, hlisten⟩ := map_ok hspecs
  refine ⟨balancers, hcreate, hlisten, (createBalancers_own_iff hcreate).mpr ?_⟩
  rintro host addr ⟨listener, port, peer, ip, hlistener, hsplit, hrest⟩
  obtain rfl := List.mem_singleton.mp (hasListener_clusterConfig hlistener)
  have hfoo : splitHostPort "foo:8000" = .ok ("foo", "8000") := by decide +kernel
  rw [hfoo] at hsplit
  obtain ⟨rfl, rfl⟩ := Prod.mk.inj (Except.ok.inj hsplit)
  exact ⟨"foo:8000", "8000", peer, ip, hlistener, hfoo, hrest⟩

/-- **A node balances on another node's address.**  With a listener for each of the two nodes,
foo starts a balancer on bar's address, which is not one of its own. -/
theorem createBalancers_not_own :
    ∃ balancers, createBalancers quietNetwork (sortedOrder _ _) "foo"
        (clusterConfig "tcp" ["foo:8000", "bar:8000"]) = .ok balancers ∧
      balancers.map Balancer.listenSpec = ["10.0.0.1:8000", "10.0.0.2:8000"] ∧
      ¬ ListensOn (clusterConfig "tcp" ["foo:8000", "bar:8000"]) "foo" "10.0.0.2:8000" := by
  have hspecs : (createBalancers quietNetwork (sortedOrder _ _) "foo"
      (clusterConfig "tcp" ["foo:8000", "bar:8000"])).map (List.map Balancer.listenSpec)
        = .ok ["10.0.0.1:8000", "10.0.0.2:8000"] := by decide +kernel
  obtain ⟨balancers, hcreate, hlisten⟩ := map_ok hspecs
  refine ⟨balancers, hcreate, hlisten, ?_⟩
  rintro ⟨listener, port, peer, ip, hlistener, hsplit, hfind, hip, haddr⟩
  have hfoo : findPeer "foo" (clusterConfig "tcp" ["foo:8000", "bar:8000"]).peers.elems
      = .ok (some ⟨some [nodeIP 1], "10.0.0.1:5309", some ⟨[], "foo", "A256KW"⟩⟩) := rfl
  rw [hfoo] at hfind
  obtain rfl := Option.some.inj (Except.ok.inj hfind)
  obtain rfl := List.mem_singleton.mp hip
  have hport : port = "8000" := by
    rcases List.mem_pair.mp (hasListener_clusterConfig hlistener) with rfl | rfl
    · have hsplit' : splitHostPort "foo:8000" = .ok ("foo", "8000") := by decide +kernel
      rw [hsplit'] at hsplit
      exact (Prod.mk.inj (Except.ok.inj hsplit)).2.symm
    · have hsplit' : splitHostPort "bar:8000" = .ok ("bar", "8000") := by decide +kernel
      rw [hsplit'] at hsplit
      exact (Prod.mk.inj (Except.ok.inj hsplit)).2.symm
  subst hport
  have hne : joinHostPort (ipString (nodeIP 1)) "8000" ≠ "10.0.0.2:8000" := by decide +kernel
  exact hne haddr

end Border
