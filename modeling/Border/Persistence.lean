/-
# What pruning leaves on disk

A node whose peers and addresses go up and down, and that handles registrations all the
while.  The actions of the health checks and the elections change the configuration in
memory, and a registration saves what stands there.

`Upkeep` is such a node: the configuration with the disk, the health checkers that have
been started, and the registrations under way.  A registration edits the list of peers, saves,
reads the JSON file back and copies what it has read over memory, and anything may happen between
two of these steps.  Next to them stands what the node is configured with: the peers that were
loaded, each with the data it has registered since.

* `upkeepStep_move` : apart from the list of peers, a step that is not one of a registration
  changes nothing that is saved, since the actions on records change converted values only;
* `registrations_persist` : what a registration saves has every configured peer and every
  literal that was loaded exactly when the list in memory is `Whole` at that time and no zone
  has a name that ends in two dots;
* `pruned_peer_deleted` : a peer that was down when another one registered is gone from both
  files, and the launch that follows makes no check that could bring it back.
-/
import Border.AddressChecks
import Border.ConfigRounds
import Border.PeerRecovery
import Border.Registrations
import Border.Relaunch

namespace Border

open GoJson GoMap NetAddr Transition WriteBack

variable {β : Type}

/-! ## The system -/

/-- A health checker that has been started. -/
structure Watch where
  built : Builder
  checker : HealthChecker
  /-- The records its actions hold are those of the configuration in memory. -/
  attached : Bool

/-- `HealthChecker.Start` on the checks that were built. -/
def Watch.start (b : Builder) : Watch where
  built := b
  checker := .init (List.range b.made.length) b.objects
  attached := true

/-- A reload makes new records, and the actions go on holding the old ones. -/
def Watch.detach (w : Watch) : Watch := { w with attached := false }

/-- A node, the health checkers it has started, the registrations it has received, and what it is
configured with. -/
structure Upkeep (β : Type) where
  node : Node β
  /-- A checker that has been shut down stays: it finishes its round, and `select` may give
  it another one. -/
  watches : List Watch
  /-- How far the registrations have come. -/
  requests : List (Phase Config)
  /-- The peers that were loaded, each with the data it has registered since. -/
  configured : List (Option Peer)
  /-- What was configured when a registration has last saved. -/
  saved : Option (List (Option Peer))

/-- A configuration that has been loaded, before the first launch. -/
def Upkeep.start (node : Node β) : Upkeep β := ⟨node, [], [], node.config.peers.elems, none⟩

/-- A step of such a node. -/
inductive UpkeepAct
  /-- `Launch`, the first one or that of `monitorReload`, up to the election. -/
  | launch (m : Machine) (peerName : String)
  /-- A step of a health checker. -/
  | check (k : ℕ) (act : ServiceAct)
  /-- An election that no action triggers. -/
  | election (ballot : Ballot)
  /-- A peer is removed by an election that is not over yet. -/
  | remove (peer : Option Peer)
  /-- A `handlePeerRegister` request is received and edits the list of peers. -/
  | register (peer : Peer)
  /-- A request goes on: it saves, reads the JSON file back, or runs `CopyFrom`. -/
  | proceed (k : ℕ) (env : Env)

def Upkeep.withConfig (s : Upkeep β) (c : Config) : Upkeep β :=
  { s with node := { s.node with config := c } }

/-- The first launch, or one for which a signal waits.  When it fails no checker is
started. -/
def Upkeep.launch (s : Upkeep β) (m : Machine) (peerName : String) : Option (Upkeep β) :=
  if s.watches.isEmpty ∨ s.node.config.reload = true then
    let s' := s.withConfig { s.node.config with reload := false }
    match prepare m peerName s.node.config.toConfigData with
    | .ok server => some { s' with watches := s.watches ++ [.start server.healthChecker] }
    | .error (.panic _) => none
    | .error _ => some s'
  else none

/-- A step of checker `k`.  The actions on records reach the configuration in memory only
as long as the records are its own.  (After a `Save` and before `CopyFrom` these stand under
names without dots, and an action that looks for the old names changes nothing; what it would
change are converted values, which `CopyFrom` then replaces.) -/
def Upkeep.check (s : Upkeep β) (k : ℕ) (act : ServiceAct) : Option (Upkeep β) :=
  s.watches[k]?.bind fun w =>
    (Services.step ⟨s.node.config, w.built, w.checker⟩ act).map fun t =>
      let c := if w.attached then t.config else { t.config with zones := s.node.config.zones }
      { s.withConfig c with watches := s.watches.set k { w with checker := t.checker } }

/-- The edit of a registration, of a configured peer. -/
def Upkeep.register (s : Upkeep β) (peer : Peer) : Option (Upkeep β) :=
  if Peer.name peer ∈ s.configured.map Peer.name then
    match (editPeers (some peer)).run s.node with
    | .ok _ node =>
      some { s with
        node := node
        requests := s.requests ++ [.edited]
        configured := s.configured.map (renew peer) }
    | .error _ _ => none
  else none

/-- The next step of request `k`.  One that fails ends the request with an error, and is not a
step of a run in which the registrations succeed. -/
def Upkeep.proceed (lib : Libraries β) (s : Upkeep β) (k : ℕ) (env : Env) : Option (Upkeep β) :=
  match s.requests[k]? with
  | some .edited =>
    match (save lib env).run s.node with
    | .ok _ node =>
      some { s with node := node, requests := s.requests.set k .saved, saved := s.configured }
    | .error _ _ => none
  | some .saved =>
    match fromDisk lib env s.node.config s.node.jsonPath (loadJSON lib)
        (s.node.disk s.node.jsonPath) with
    | .ok newConfig => some { s with requests := s.requests.set k (.loaded newConfig) }
    | .error _ => none
  | some (.loaded newConfig) =>
    some { s with
      node := installConfig newConfig s.node
      watches := s.watches.map Watch.detach
      requests := s.requests.set k .done }
  | _ => none

/-- Execute one step. -/
def upkeepStep (lib : Libraries β) (s : Upkeep β) : UpkeepAct → Option (Upkeep β)
  | .launch m peerName => s.launch m peerName
  | .check k act => s.check k act
  | .election ballot => (elect ballot s.node.config).map s.withConfig
  | .remove peer => (s.node.config.removePeer peer).toOption.map s.withConfig
  | .register peer => s.register peer
  | .proceed k env => s.proceed lib k env

/-- **A registration on its own.**  The four steps of a request, one right after the other, are
`handlePeerRegister`. -/
theorem handlePeerRegister_proceed {lib : Libraries β} {env : Env} {peer : Peer} {s : Upkeep β}
    (hname : Peer.name peer ∈ s.configured.map Peer.name) {node' : Node β}
    (h : (handlePeerRegister lib env (some peer)).run s.node = .ok () node') :
    ∃ edited saved s', upkeepStep lib s (.register peer) = some edited ∧
      upkeepStep lib edited (.proceed s.requests.length env) = some saved ∧
      run (upkeepStep lib) saved (List.replicate 2 (.proceed s.requests.length env)) = some s' ∧
      edited.requests[s.requests.length]? = some .edited ∧
      edited.configured = s.configured.map (renew peer) ∧
      s'.node = node' ∧ node'.disk = saved.node.disk ∧
      node'.config.filenamePrefix = saved.node.config.filenamePrefix := by
  obtain ⟨_, node₁, hedit, hrest⟩ := run_bind_ok h
  obtain ⟨_, node₂, hsave, hreload⟩ := run_bind_ok hrest
  have hsave := run_wrapError_ok hsave
  obtain ⟨newConfig, hload, rfl⟩ := reload_install (run_wrapError_ok hreload)
  have hat : ∀ p : Phase Config, (s.requests ++ [p])[s.requests.length]? = some p := fun p => by
    rw [List.getElem?_append_right le_rfl, Nat.sub_self]
    rfl
  have hset : ∀ p q : Phase Config, (s.requests ++ [p]).set s.requests.length q
      = s.requests ++ [q] := fun p q => by
    rw [List.set_append_right _ _ le_rfl, Nat.sub_self]
    rfl
  refine ⟨⟨node₁, s.watches, s.requests ++ [.edited], s.configured.map (renew peer), s.saved⟩,
    ⟨node₂, s.watches, s.requests ++ [.saved], s.configured.map (renew peer),
      some (s.configured.map (renew peer))⟩,
    ⟨installConfig newConfig node₂, s.watches.map Watch.detach, s.requests ++ [.done],
      s.configured.map (renew peer), some (s.configured.map (renew peer))⟩,
    ?_, ?_, ?_, hat _, rfl, rfl, rfl, rfl⟩
  · simp only [upkeepStep, Upkeep.register, if_pos hname, hedit]
  · simp only [upkeepStep, Upkeep.proceed, hat, hsave, hset]
  · simp only [List.replicate, run_cons, upkeepStep, Upkeep.proceed, hat, hload, hset,
      Option.bind_some, run_nil]

/-! ## Steps that save nothing -/

/-- Changing elements in a way that is not seen afterwards. -/
theorem map_modify_of_comp {α γ : Type} {e : α → γ} {g : α → α} (h : ∀ a, e (g a) = e a)
    (l : List α) (i : ℕ) : (l.modify i g).map e = l.map e := by
  apply List.ext_getElem?
  intro j
  rw [List.getElem?_map, List.getElem?_map, List.getElem?_modify]
  cases l[j]? with
  | none => rfl
  | some a =>
    show some (e _) = some (e a)
    split
    · rw [h]
    · rfl

/-- The value of a record is not saved. -/
theorem exportedAt_modifyValue (key : String) (idx : ℕ) (f : RecordValue → RecordValue)
    (zones : Zones) : ZonesAgree (modifyValue key idx f zones) zones := by
  intro key'
  unfold modifyValue exportedAt
  cases hlookup : zones.lookup key with
  | none => rfl
  | some zone =>
    cases zone with
    | none => rfl
    | some zone =>
      by_cases hkey : key' = key
      · obtain rfl := hkey
        rw [Finmap.lookup_insert, hlookup]
        obtain ⟨soa, ns, records⟩ := zone
        cases records with
        | none => rfl
        | some rs =>
          have hsaved : ∀ r : Option Record,
              Option.map Record.exported (r.map fun r => { r with value := r.value.map f })
                = r.map Record.exported := by
            intro r
            cases r <;> rfl
          simp only [Option.map_some, Zone.exported, map_modify_of_comp hsaved]
      · rw [Finmap.lookup_insert_of_ne _ hkey]

/-- **What an action can do.**  It changes the peers and the publisher, or values of
records; a peer that it adds is the one of its check. -/
theorem perform_frame {vars : List String} {ballot : Ballot} {target : String}
    {closure : CheckClosure} {action : CheckAction} {c c' : Config}
    (h : closure.perform vars ballot target action c = some c') :
    ∃ peers publisher zones,
      c' = { c with peers := peers, publisher := publisher, zones := zones } ∧
        ZonesAgree zones c.zones ∧
        ∀ p ∈ peers.elems, p ∈ c.peers.elems ∨ closure = .peer p := by
  cases closure with
  | peer p =>
    obtain ⟨peers, publisher, rfl, hpeers⟩ := perform_peer_frame h
    refine ⟨peers, publisher, c.zones, rfl, fun _ => rfl, fun q hq => ?_⟩
    rcases hpeers q hq with hq | rfl
    · exact Or.inl hq
    · exact Or.inr rfl
  | address key idx =>
    obtain rfl := Option.some.inj h
    exact ⟨c.peers, c.publisher, _, rfl, exportedAt_modifyValue _ _ _ _, fun _ => Or.inl⟩
  | entry side key idx var subject =>
    obtain rfl := Option.some.inj h
    exact ⟨c.peers, c.publisher, _, rfl, exportedAt_modifyValue _ _ _ _, fun _ => Or.inl⟩

/-- What a step of a health checker can do to the configuration. -/
theorem Services.step_frame {t t' : Services} {act : ServiceAct} (h : t.step act = some t') :
    ∃ peers publisher zones,
      t'.config = { t.config with peers := peers, publisher := publisher, zones := zones } ∧
        ZonesAgree zones t.config.zones ∧
        ∀ p ∈ peers.elems, p ∈ t.config.peers.elems ∨
          ∃ a ∈ t.built.made, a.closure = .peer p := by
  have hsame : ∃ peers publisher zones,
      t.config = { t.config with peers := peers, publisher := publisher, zones := zones } ∧
        ZonesAgree zones t.config.zones ∧
        ∀ p ∈ peers.elems, p ∈ t.config.peers.elems ∨
          ∃ a ∈ t.built.made, a.closure = .peer p :=
    ⟨_, _, _, rfl, fun _ => rfl, fun _ => Or.inl⟩
  obtain ⟨-, -, hcases⟩ := Services.step_cases h
  rcases hcases with ⟨outcome, -, hconfig⟩ | ⟨i, sec, ballot, -, -, -, hinvoke⟩
  · rw [hconfig]
    exact hsame
  · unfold Services.invoke at hinvoke
    split at hinvoke
    next action closure haction hclosure =>
      obtain ⟨peers, publisher, zones, hconfig, hzones, hpeers⟩ := perform_frame hinvoke
      refine ⟨peers, publisher, zones, hconfig, hzones, fun p hp => ?_⟩
      rcases hpeers p hp with hp | rfl
      · exact Or.inl hp
      · obtain ⟨a, ha, hclosure⟩ := Option.map_eq_some_iff.mp hclosure
        exact Or.inr ⟨a, List.mem_of_getElem? ha, hclosure⟩
    · rw [← Option.some.inj hinvoke]
      exact hsame

/-- A check that was started holds the peer, and its `ReviveAction` adds it. -/
def Upkeep.Watched (s : Upkeep β) (p : Option Peer) : Prop :=
  ∃ w ∈ s.watches, ∃ a ∈ w.built.made, a.closure = .peer p

/-- A step that is not one of a registration saves nothing, and changes nothing a save reads but
the list of peers; a peer that is added was listed when a checker was started. -/
structure Upkeep.Unsaved (s s' : Upkeep β) : Prop where
  disk : s'.node.disk = s.node.disk
  base : s'.node.config.filenamePrefix = s.node.config.filenamePrefix
  settings : s'.node.config.shutdownWait = s.node.config.shutdownWait ∧
    s'.node.config.authKey = s.node.config.authKey
  zones : ZonesAgree s'.node.config.zones s.node.config.zones
  peers : ∀ p ∈ s'.node.config.peers.elems, p ∈ s.node.config.peers.elems ∨ s.Watched p
  watched : ∀ p, s'.Watched p → p ∈ s.node.config.peers.elems ∨ s.Watched p
  requests : s'.requests = s.requests
  configured : s'.configured = s.configured
  saved : s'.saved = s.saved

/-- A step that leaves the checkers and changes the peers and the publisher only. -/
theorem unsaved_peers (s : Upkeep β) {peers : Slice (Option Peer)} {publisher : Option Peer}
    (hpeers : ∀ p ∈ peers.elems, p ∈ s.node.config.peers.elems) :
    s.Unsaved (s.withConfig { s.node.config with peers := peers, publisher := publisher }) where
  disk := rfl
  base := rfl
  settings := ⟨rfl, rfl⟩
  zones _ := rfl
  peers p hp := Or.inl (hpeers p hp)
  watched _ := Or.inr
  requests := rfl
  configured := rfl
  saved := rfl

theorem unsaved_launch {s s' : Upkeep β} {m : Machine} {peerName : String}
    (h : s.launch m peerName = some s') : s.Unsaved s' := by
  have hquiet : s.Unsaved (s.withConfig { s.node.config with reload := false }) :=
    ⟨rfl, rfl, ⟨rfl, rfl⟩, fun _ => rfl, fun _ => Or.inl, fun _ => Or.inr, rfl, rfl, rfl⟩
  unfold Upkeep.launch at h
  rw [Option.ite_none_right_eq_some] at h
  replace h := h.2
  dsimp only at h
  split at h
  next server hprepare =>
    rw [← Option.some.inj h]
    refine ⟨rfl, rfl, ⟨rfl, rfl⟩, fun _ => rfl, fun _ => Or.inl, ?_, rfl, rfl, rfl⟩
    rintro p ⟨w, hw, a, ha, hclosure⟩
    rcases List.mem_append.mp hw with hw | hw
    · exact Or.inr ⟨w, hw, a, ha, hclosure⟩
    · -- the checks that are started are those of the peers in memory
      obtain rfl := List.mem_singleton.mp hw
      obtain ⟨i, hi⟩ := List.getElem?_of_mem ha
      have hpeer := (closure_peer_iff (prepare_checks hprepare)).mp
        (Option.map_eq_some_iff.mpr ⟨a, hi, hclosure⟩)
      exact Or.inl (List.mem_of_getElem? hpeer)
  · exact absurd h (by simp)
  · rw [← Option.some.inj h]
    exact hquiet

theorem unsaved_check {s s' : Upkeep β} {k : ℕ} {act : ServiceAct}
    (h : s.check k act = some s') : s.Unsaved s' := by
  unfold Upkeep.check at h
  obtain ⟨w, hw, h⟩ := Option.bind_eq_some_iff.mp h
  obtain ⟨t, hstep, rfl⟩ := Option.map_eq_some_iff.mp h
  obtain ⟨peers, publisher, zones, hconfig, hzones, hpeers⟩ := Services.step_frame hstep
  have hmem : w ∈ s.watches := List.mem_of_getElem? hw
  have hadded : ∀ p ∈ peers.elems, p ∈ s.node.config.peers.elems ∨ s.Watched p := by
    intro p hp
    rcases hpeers p hp with hp | ⟨a, ha, hclosure⟩
    · exact Or.inl hp
    · exact Or.inr ⟨w, hmem, a, ha, hclosure⟩
  have hwatched : ∀ v : Watch, v.built = w.built → ∀ p,
      (∃ w' ∈ s.watches.set k v, ∃ a ∈ w'.built.made, a.closure = .peer p) → s.Watched p := by
    rintro v hv p ⟨w', hw', hclosure⟩
    rcases List.mem_or_eq_of_mem_set hw' with hw' | rfl
    · exact ⟨w', hw', hclosure⟩
    · rw [hv] at hclosure
      exact ⟨w, hmem, hclosure⟩
  dsimp only at hconfig hzones ⊢
  rw [hconfig]
  cases w.attached with
  | true =>
    exact ⟨rfl, rfl, ⟨rfl, rfl⟩, hzones, hadded,
      fun p hp => Or.inr (hwatched ⟨w.built, t.checker, true⟩ rfl p hp), rfl, rfl, rfl⟩
  | false =>
    exact ⟨rfl, rfl, ⟨rfl, rfl⟩, fun _ => rfl, hadded,
      fun p hp => Or.inr (hwatched ⟨w.built, t.checker, false⟩ rfl p hp), rfl, rfl, rfl⟩

/-- The steps, with the conditions under which they are taken. -/
inductive UpkeepMove (lib : Libraries β) (s : Upkeep β) : UpkeepAct → Upkeep β → Prop
  | unsaved {act : UpkeepAct} {s' : Upkeep β} (hnot : ∀ k env, act ≠ .proceed k env)
      (h : s.Unsaved s') : UpkeepMove lib s act s'
  | register {peer : Peer} {node : Node β}
      (hedit : (editPeers (some peer)).run s.node = .ok () node) :
      UpkeepMove lib s (.register peer)
        { s with
          node := node
          requests := s.requests ++ [.edited]
          configured := s.configured.map (renew peer) }
  | save {k : ℕ} {env : Env} {node : Node β} (hk : s.requests[k]? = some .edited)
      (hsave : (save lib env).run s.node = .ok () node) :
      UpkeepMove lib s (.proceed k env)
        { s with node := node, requests := s.requests.set k .saved, saved := s.configured }
  | load {k : ℕ} {env : Env} {newConfig : Config} (hk : s.requests[k]? = some .saved)
      (hload : fromDisk lib env s.node.config s.node.jsonPath (loadJSON lib)
        (s.node.disk s.node.jsonPath) = .ok newConfig) :
      UpkeepMove lib s (.proceed k env)
        { s with requests := s.requests.set k (.loaded newConfig) }
  | install {k : ℕ} {env : Env} {newConfig : Config}
      (hk : s.requests[k]? = some (.loaded newConfig)) :
      UpkeepMove lib s (.proceed k env)
        { s with
          node := installConfig newConfig s.node
          watches := s.watches.map Watch.detach
          requests := s.requests.set k .done }

/-- **What a step can do.** -/
theorem upkeepStep_move {lib : Libraries β} {s s' : Upkeep β} {act : UpkeepAct}
    (h : upkeepStep lib s act = some s') : UpkeepMove lib s act s' := by
  cases act with
  | launch m peerName => exact .unsaved (by simp) (unsaved_launch h)
  | check k act => exact .unsaved (by simp) (unsaved_check h)
  | election ballot =>
    obtain ⟨c, helect, rfl⟩ := Option.map_eq_some_iff.mp h
    obtain ⟨peers, publisher, rfl, hpeers⟩ := elect_frame helect
    exact .unsaved (by simp) (unsaved_peers s hpeers)
  | remove peer =>
    obtain ⟨c, hremove, rfl⟩ := Option.map_eq_some_iff.mp h
    cases hok : s.node.config.removePeer peer with
    | error e =>
      rw [hok] at hremove
      cases hremove
    | ok c' =>
      rw [hok] at hremove
      obtain rfl := Option.some.inj hremove
      obtain ⟨remaining, hremaining, rfl⟩ := map_ok hok
      exact .unsaved (by simp) (unsaved_peers s fun p hp => mem_of_removePeer hremaining hp)
  | register peer =>
    simp only [upkeepStep, Upkeep.register, Option.ite_none_right_eq_some] at h
    replace h := h.2
    split at h
    next node hedit =>
      rw [← Option.some.inj h]
      exact .register hedit
    · cases h
  | proceed k env =>
    simp only [upkeepStep, Upkeep.proceed] at h
    split at h
    next hk =>
      split at h
      next node hsave =>
        rw [← Option.some.inj h]
        exact .save hk hsave
      · cases h
    next hk =>
      split at h
      next newConfig hload =>
        rw [← Option.some.inj h]
        exact .load hk hload
      · cases h
    next newConfig hk =>
      rw [← Option.some.inj h]
      exact .install hk
    · cases h

/-! ## The literals of the zones -/

/-- The types and literals of the records of a zone. -/
def Zone.literals (z : Zone) : Slice (Option (RecordType × Option (List (String × Json)))) :=
  z.records.map (List.map (Option.map fun r => (r.type, r.literalValue)))

/-- The literals of the zone under a key. -/
def literalsAt (zones : Zones) (key : String) :
    Option (Option (Slice (Option (RecordType × Option (List (String × Json)))))) :=
  (zones.lookup key).map (Option.map Zone.literals)

/-- A change of records that leaves types and literals is not seen. -/
theorem literals_map {g : Record → Record}
    (hg : ∀ r, ((g r).type, (g r).literalValue) = (r.type, r.literalValue))
    (soa soa' : Option SOA) (ns ns' : Option NS) (records : Slice (Option Record)) :
    Zone.literals ⟨soa', ns', records.map (List.map (Option.map g))⟩
      = Zone.literals ⟨soa, ns, records⟩ := by
  cases records with
  | none => rfl
  | some rs =>
    simp only [Zone.literals, Option.map_some, List.map_map, Option.some.injEq]
    apply List.map_congr_left
    intro r _
    cases r with
    | none => rfl
    | some r => exact congrArg some (hg r)

theorem Zone.literals_exported (z : Zone) : z.exported.literals = z.literals :=
  literals_map (g := Record.exported) (fun _ => rfl) z.soa z.soa z.ns z.ns z.records

theorem Zone.literals_rename (f : String → String) (z : Zone) :
    (z.rename f).literals = z.literals :=
  literals_map (g := Record.rename f) (fun _ => rfl) z.soa _ z.ns _ z.records

theorem literalsAt_eq (zones : Zones) (key : String) :
    literalsAt zones key = (exportedAt zones key).map (Option.map Zone.literals) := by
  unfold literalsAt exportedAt
  cases zones.lookup key with
  | none => rfl
  | some zone =>
    cases zone with
    | none => rfl
    | some z =>
      simp only [Option.map_some]
      rw [Zone.literals_exported]

theorem ZonesAgree.literalsAt {zones zones' : Zones} (h : ZonesAgree zones zones')
    (key : String) : literalsAt zones key = literalsAt zones' key := by
  rw [literalsAt_eq, literalsAt_eq, h key]

theorem mem_iff_literalsAt {zones : Zones} {key : String} :
    key ∈ zones ↔ literalsAt zones key ≠ none := by
  rw [← Finmap.lookup_isSome, literalsAt]
  cases zones.lookup key <;> simp

/-- Where no two keys meet, the literals go with the names. -/
theorem literalsAt_renamed {f : String → String} (order : RangeOrder String (Option Zone))
    {zones : Zones} (hinj : ∀ k ∈ zones, ∀ l ∈ zones, f k = f l → k = l) {key : String}
    (hkey : key ∈ zones) : literalsAt (renamed f order zones) (f key) = literalsAt zones key := by
  rw [literalsAt_eq, exportedAt_renamed order hinj hkey, literalsAt_eq, Option.map_map]
  congr 1
  funext zone
  cases zone with
  | none => rfl
  | some z => exact congrArg some (Zone.literals_rename f z)

/-- The conversion leaves the literals. -/
theorem literalsAt_converted {parseDuration : String → Except String ℤ}
    {order : RangeOrder String (Option Zone)} {zones zones' : Zones}
    (h : convertLiterals parseDuration order zones = .ok zones') (key : String) :
    literalsAt zones' key = literalsAt zones key := by
  rw [literalsAt_eq, exportedAt_converted h, literalsAt_eq, Option.map_map]
  congr 1
  funext zone
  cases zone <;> rfl

/-! ## The keys of the zones -/

theorem length_trimDot {key : String} (h : HasDot key) :
    (trimDot key).length + 1 = key.length := by
  have hlen := congrArg String.length (trimDot_append_dot h)
  rw [String.length_append] at hlen
  exact hlen

theorem trimDot_inj {key key' : String} (h : HasDot key) (h' : HasDot key')
    (heq : trimDot key = trimDot key') : key = key' := by
  rw [← trimDot_append_dot h, heq, trimDot_append_dot h']

theorem addDot_of_hasDot {key : String} (h : HasDot key) : addDot key = key := if_pos h

theorem trimDot_of_not_hasDot {key : String} (h : ¬ HasDot key) : trimDot key = key := if_neg h

/-- What saves and loads make of the keys, in whatever order they come: dots are taken off, and
one is put where none is.  A key with one dot has it or not, all of them alike; and no key gets
more dots than it had. -/
structure Worn (f : String → String) : Prop where
  keep : (∀ key, Dotted key → f key = key) ∨ ∀ key, Dotted key → f key = trimDot key
  shrink : ∀ key, HasDot key → (addDot (f key)).length ≤ key.length

theorem worn_id : Worn id := by
  refine ⟨Or.inl fun _ _ => rfl, fun key hkey => ?_⟩
  show (addDot key).length ≤ _
  rw [addDot_of_hasDot hkey]

section Worn

variable {f : String → String}

theorem Worn.trim (hf : Worn f) : Worn (trimDot ∘ f) := by
  refine ⟨Or.inr fun key hkey => ?_, fun key hkey => ?_⟩
  · rcases hf.keep with hkeep | hkeep
    · rw [Function.comp_apply, hkeep key hkey]
    · rw [Function.comp_apply, hkeep key hkey, trimDot_of_not_hasDot hkey.2]
  · refine le_trans ?_ (hf.shrink key hkey)
    rw [Function.comp_apply]
    by_cases hdot : HasDot (f key)
    · have hlen := length_trimDot hdot
      rw [addDot_of_hasDot hdot]
      by_cases hmore : HasDot (trimDot (f key))
      · rw [addDot_of_hasDot hmore]
        omega
      · rw [addDot, if_neg hmore, trimDot_append_dot hdot]
    · rw [trimDot_of_not_hasDot hdot]

theorem Worn.add (hf : Worn f) : Worn (addDot ∘ f) := by
  refine ⟨Or.inl fun key hkey => ?_, fun key hkey => ?_⟩
  · rcases hf.keep with hkeep | hkeep
    · rw [Function.comp_apply, hkeep key hkey, addDot_of_hasDot hkey.1]
    · rw [Function.comp_apply, hkeep key hkey, (dotted_iff key).mp hkey]
  · rw [Function.comp_apply, addDot_of_hasDot (hasDot_addDot _)]
    exact hf.shrink key hkey

/-- Keys with one dot do not meet. -/
theorem Worn.inj (hf : Worn f) {k l : String} (hk : Dotted k) (hl : Dotted l) (heq : f k = f l) :
    k = l := by
  rcases hf.keep with hkeep | hkeep
  · rw [hkeep k hk, hkeep l hl] at heq
    exact heq
  · rw [hkeep k hk, hkeep l hl] at heq
    exact trimDot_inj hk.1 hl.1 heq

/-- What is written has no dot left. -/
theorem Worn.trimDot_eq (hf : Worn f) {key : String} (hkey : Dotted key) :
    trimDot (f key) = trimDot key := by
  rcases hf.keep with hkeep | hkeep
  · rw [hkeep key hkey]
  · rw [hkeep key hkey, trimDot_of_not_hasDot hkey.2]

/-- A key that still has a dot after two trims had two more. -/
theorem Worn.length_of_hasDot (hf : Worn f) {key : String} (hkey : HasDot key)
    (h : HasDot (trimDot (trimDot (f key)))) :
    ¬ NoEmptyLabel key ∧ (trimDot (trimDot (f key))).length + 2 ≤ key.length := by
  have honce : HasDot (trimDot (f key)) := by
    by_contra hnot
    rw [trimDot_of_not_hasDot hnot] at h
    exact hnot h
  have hnone : HasDot (f key) := by
    by_contra hnot
    rw [trimDot_of_not_hasDot hnot] at honce
    exact hnot honce
  constructor
  · intro hlabel
    rw [hf.trimDot_eq ⟨hkey, hlabel⟩] at honce
    exact hlabel honce
  · have hshrink := hf.shrink key hkey
    rw [addDot_of_hasDot hnone] at hshrink
    have hlen := length_trimDot hnone
    have hlen' := length_trimDot honce
    omega

/-- **An empty label is lost.**  If some key ends in two dots, then whatever saves and loads there
have been, the YAML document has no zone under the name of the longest such key. -/
theorem exists_key_lost {zones : Zones} (hdots : ∀ key ∈ zones, HasDot key)
    (hlabel : ¬ ∀ key ∈ zones, NoEmptyLabel key) (hf : Worn f) :
    ∃ key ∈ zones, ∀ k ∈ zones, trimDot (trimDot (f k)) ≠ trimDot key := by
  push Not at hlabel
  obtain ⟨key₀, hkey₀, hbad₀⟩ := hlabel
  have hmem₀ : key₀ ∈ zones.keys.filter fun k => ¬ NoEmptyLabel k :=
    Finset.mem_filter.mpr ⟨Finmap.mem_keys.mpr hkey₀, hbad₀⟩
  obtain ⟨key, hmem, hmax⟩ := Finset.exists_max_image _ String.length ⟨key₀, hmem₀⟩
  obtain ⟨hkey, hbad⟩ := Finset.mem_filter.mp hmem
  have hkey := Finmap.mem_keys.mp hkey
  refine ⟨key, hkey, fun k hk heq => ?_⟩
  have htwo : HasDot (trimDot key) := not_not.mp hbad
  rw [← heq] at htwo
  obtain ⟨hbad', hlen⟩ := hf.length_of_hasDot (hdots k hk) htwo
  have hle := hmax k (Finset.mem_filter.mpr ⟨Finmap.mem_keys.mpr hk, hbad'⟩)
  have hlen' := length_trimDot (hdots key hkey)
  rw [heq] at hlen
  omega

end Worn

/-! ## What the zones keep -/

/-- What a map of zones has kept of those that were loaded: its keys are what saves and loads make
of theirs, and unless a key ends in two dots every zone has its literals. -/
def Kept (loaded zones : Zones) (f : String → String) : Prop :=
  Worn f ∧ (∀ key, key ∈ zones ↔ ∃ k ∈ loaded, f k = key) ∧
    ((∀ key ∈ loaded, NoEmptyLabel key) →
      ∀ key ∈ loaded, literalsAt zones (f key) = literalsAt loaded key)

theorem kept_self (loaded : Zones) : Kept loaded loaded id :=
  ⟨worn_id, fun key => by simp, fun _ _ _ => rfl⟩

section Kept

variable {loaded zones zones' : Zones} {f g : String → String}

theorem Kept.agree (h : Kept loaded zones f) (hagree : ZonesAgree zones' zones) :
    Kept loaded zones' f := by
  obtain ⟨hf, hkeys, hliterals⟩ := h
  refine ⟨hf, fun key => ?_, fun hlabels key hkey => ?_⟩
  · rw [hagree.mem_iff, hkeys]
  · rw [hagree.literalsAt, hliterals hlabels key hkey]

theorem Kept.converted (h : Kept loaded zones f) {parseDuration : String → Except String ℤ}
    {order : RangeOrder String (Option Zone)}
    (hconvert : convertLiterals parseDuration order zones = .ok zones') :
    Kept loaded zones' f := by
  obtain ⟨hf, hkeys, hliterals⟩ := h
  refine ⟨hf, fun key => ?_, fun hlabels key hkey => ?_⟩
  · rw [mem_iff_literalsAt, literalsAt_converted hconvert, ← mem_iff_literalsAt, hkeys]
  · rw [literalsAt_converted hconvert, hliterals hlabels key hkey]

/-- A loop over the zones that puts dots to all names, or takes them off. -/
theorem Kept.renamed (hdots : ∀ key ∈ loaded, HasDot key) (h : Kept loaded zones f)
    (hg : Worn (g ∘ f)) (order : RangeOrder String (Option Zone)) :
    Kept loaded (renamed g order zones) (g ∘ f) := by
  obtain ⟨hf, hkeys, hliterals⟩ := h
  refine ⟨hg, fun key => ?_, fun hlabels key hkey => ?_⟩
  · rw [mem_renamed]
    constructor
    · rintro ⟨k, hk, rfl⟩
      obtain ⟨l, hl, rfl⟩ := (hkeys k).mp hk
      exact ⟨l, hl, rfl⟩
    · rintro ⟨l, hl, rfl⟩
      exact ⟨f l, (hkeys _).mpr ⟨l, hl, rfl⟩, rfl⟩
  · have hinj : ∀ k ∈ zones, ∀ l ∈ zones, g k = g l → k = l := by
      intro k hk l hl heq
      obtain ⟨k', hk', rfl⟩ := (hkeys k).mp hk
      obtain ⟨l', hl', rfl⟩ := (hkeys l).mp hl
      rw [hg.inj ⟨hdots k' hk', hlabels k' hk'⟩ ⟨hdots l' hl', hlabels l' hl'⟩ heq]
    show literalsAt (Border.renamed g order zones) (g (f key)) = _
    rw [literalsAt_renamed order hinj ((hkeys _).mpr ⟨key, hkey, rfl⟩), hliterals hlabels key hkey]

end Kept

/-! ## What a save writes -/

/-- On the class, the YAML encoding gives back the saved fields. -/
def RoundTripsYAML (lib : Libraries β) (D : Domain) : Prop :=
  ∀ d document, d.In D → lib.encodeYAML d = .ok document →
    ∃ d', lib.decodeYAML document = .ok d' ∧ d'.Agrees d

/-- The configuration that a file holds. -/
def decodeFile (decode : β → Except String ConfigData) : Option (File β) → Option ConfigData
  | some (.doc document) => (decode document).toOption
  | _ => none

/-- The configuration in the JSON file. -/
def Node.writtenJSON (lib : Libraries β) (node : Node β) : Option ConfigData :=
  decodeFile lib.decodeJSON (node.disk node.jsonPath)

/-- The configuration in the YAML file. -/
def Node.writtenYAML (lib : Libraries β) (node : Node β) : Option ConfigData :=
  decodeFile lib.decodeYAML (node.disk node.yamlPath)

/-- What a save writes and leaves in memory. -/
structure Saves (lib : Libraries β) (env : Env) (node node' : Node β)
    (json yaml : ConfigData) : Prop where
  jsonWritten : node'.writtenJSON lib = some json
  yamlWritten : node'.writtenYAML lib = some yaml
  jsonPeers : json.peers = node.config.peers
  yamlPeers : yaml.peers = node.config.peers
  jsonZones : ZonesAgree json.zones (renamed trimDot (env.order .trimJSON) node.config.zones)
  yamlZones : ZonesAgree yaml.zones (renamed trimDot (env.order .trimYAML)
    (renamed trimDot (env.order .trimJSON) node.config.zones))
  memory : node'.config.zones = renamed trimDot (env.order .trimYAML)
    (renamed trimDot (env.order .trimJSON) node.config.zones)

/-- **A save.** -/
theorem save_written {lib : Libraries β} {D : Domain} (hjson : RoundTrips lib D)
    (hyaml : RoundTripsYAML lib D) {env : Env} {node node' : Node β}
    (hin : node.config.toConfigData.In D) (h : (save lib env).run node = .ok () node') :
    ∃ json yaml, Saves lib env node node' json yaml := by
  obtain ⟨json, yaml, hstage, hreached⟩ := save_ok h
  obtain ⟨htrim, hencode⟩ := saveStage_ok hstage
  obtain ⟨htrim', hencode'⟩ := saveStage_yaml_ok hstage
  obtain ⟨dataJSON, hdecode, hagrees⟩ := hjson _ _ (hin.trim htrim) hencode
  obtain ⟨dataYAML, hdecode', hagrees'⟩ := hyaml _ _ ((hin.trim htrim).trim htrim') hencode'
  have hbase : node'.config.filenamePrefix = node.config.filenamePrefix := by
    rw [hreached.config]
  have hfile : node'.disk node'.jsonPath = some (.doc json) := by
    rw [Node.jsonPath, hbase]
    exact hreached.json
  have hfile' : node'.disk node'.yamlPath = some (.doc yaml) := by
    rw [Node.yamlPath, hbase]
    exact hreached.yaml
  have hzones : (trimZones (env.order .trimJSON) node.config.zones).1
      = renamed trimDot (env.order .trimJSON) node.config.zones := renameZones_eq_renamed htrim
  have hzones' : ((node.config.toConfigData.trim (env.order .trimJSON)).trim
      (env.order .trimYAML)).zones = renamed trimDot (env.order .trimYAML)
        (renamed trimDot (env.order .trimJSON) node.config.zones) := by
    rw [← hzones]
    exact renameZones_eq_renamed htrim'
  refine ⟨dataJSON, dataYAML, ?_, ?_, hagrees.peers, hagrees'.peers, ?_, ?_, ?_⟩
  · rw [Node.writtenJSON, hfile, decodeFile, hdecode]
    rfl
  · rw [Node.writtenYAML, hfile', decodeFile, hdecode']
    rfl
  · rw [← hzones]
    exact hagrees.zones
  · rw [← hzones']
    exact hagrees'.zones
  · rw [hreached.config]
    exact hzones'

/-! ## What has to be written -/

/-- A document that lists every configured peer, as often as it is configured, and that has
the zones that were loaded, each with its literals, under their names without the final
dot. -/
structure Unabridged (configured : List (Option Peer)) (loaded : Zones) (d : ConfigData) :
    Prop where
  peers : d.peers.elems.Perm configured
  literals : ∀ key ∈ loaded, literalsAt d.zones (trimDot key) = literalsAt loaded key
  zones : ∀ key ∈ d.zones, ∃ k ∈ loaded, trimDot k = key

/-- Both files are unabridged. -/
def Persisted (lib : Libraries β) (loaded : Zones) (configured : List (Option Peer))
    (node : Node β) : Prop :=
  (∃ json, node.writtenJSON lib = some json ∧ Unabridged configured loaded json) ∧
    ∃ yaml, node.writtenYAML lib = some yaml ∧ Unabridged configured loaded yaml

/-- The list in memory has every configured peer, with the data that it has last registered, as
often as it is configured. -/
def Whole (s : Upkeep β) : Prop := s.node.config.peers.elems.Perm s.configured

instance (s : Upkeep β) : Decidable (Whole s) :=
  inferInstanceAs (Decidable (s.node.config.peers.elems.Perm s.configured))

/-- The configurations that are held play no part in a phase. -/
theorem edited_of_map {p : Option (Phase Config)}
    (h : (p.map fun q => q.map fun _ => ()) = some .edited) : p = some .edited := by
  obtain ⟨q, rfl, hq⟩ := Option.map_eq_some_iff.mp h
  cases q <;> simp_all [Phase.map]

/-- The condition on a step: a registration that is about to save finds the list whole. -/
def Unpruned (s : Upkeep β) : UpkeepAct → Prop
  | .proceed k _ => s.requests[k]? = some .edited → Whole s
  | _ => True

instance (s : Upkeep β) : ∀ act, Decidable (Unpruned s act)
  | .launch _ _ => isTrue trivial
  | .check _ _ => isTrue trivial
  | .election _ => isTrue trivial
  | .remove _ => isTrue trivial
  | .register _ => isTrue trivial
  | .proceed k _ =>
    if hk : (s.requests[k]?.map fun p => p.map fun _ => ()) = some .edited then
      if hwhole : Whole s then isTrue fun _ => hwhole
      else isFalse fun h => hwhole (h (edited_of_map hk))
    else isTrue fun h => absurd (by rw [h]; rfl) hk

/-- The peers of other names. -/
def others (peer : Peer) (peers : List (Option Peer)) : List (Option Peer) :=
  peers.filter fun p => ¬ Peer.name p = Peer.name peer

/-- How many entries have the name of a peer. -/
def entriesOf (peer : Peer) (peers : List (Option Peer)) : ℕ :=
  peers.countP fun p => Peer.name p = Peer.name peer

/-- A list after a replacement, up to order. -/
theorem map_renew_perm (peer : Peer) (peers : List (Option Peer)) :
    (peers.map (renew peer)).Perm
      (List.replicate (entriesOf peer peers) (some peer) ++ others peer peers) := by
  induction peers with
  | nil => exact List.Perm.refl _
  | cons p peers ih =>
    unfold entriesOf others at ih ⊢
    by_cases hname : Peer.name p = Peer.name peer
    · rw [List.map_cons, renew, if_pos hname, List.countP_cons_of_pos (by simpa using hname),
        List.filter_cons_of_neg (by simpa using hname), List.replicate_succ, List.cons_append]
      exact ih.cons _
    · rw [List.map_cons, renew, if_neg hname, List.countP_cons_of_neg (by simpa using hname),
        List.filter_cons_of_pos (by simpa using hname)]
      exact (ih.cons _).trans List.perm_middle.symm

/-- **When a replacement makes two lists equal up to order.** -/
theorem map_renew_perm_iff (peer : Peer) (peers configured : List (Option Peer)) :
    (peers.map (renew peer)).Perm (configured.map (renew peer)) ↔
      (others peer peers).Perm (others peer configured) ∧
        entriesOf peer peers = entriesOf peer configured := by
  have hperm := map_renew_perm peer peers
  have hperm' := map_renew_perm peer configured
  constructor
  · intro h
    have hsorted := (hperm.symm.trans h).trans hperm'
    have hothers : ∀ n l, others peer (List.replicate n (some peer) ++ others peer l)
        = others peer l := by
      intro n l
      simp [others]
    have hentries : ∀ n l, entriesOf peer (List.replicate n (some peer) ++ others peer l)
        = n := by
      intro n l
      simp [entriesOf, others, List.countP_replicate, List.countP_filter]
    have hfilter := hsorted.filter fun p => ¬ Peer.name p = Peer.name peer
    have hcount := hsorted.countP_eq fun p => Peer.name p = Peer.name peer
    constructor
    · rw [← hothers (entriesOf peer peers) peers, ← hothers (entriesOf peer configured) configured]
      exact hfilter
    · rw [← hentries (entriesOf peer peers) peers,
        ← hentries (entriesOf peer configured) configured]
      exact hcount
  · rintro ⟨hothers, hentries⟩
    refine hperm.trans (List.Perm.trans ?_ hperm'.symm)
    rw [hentries]
    exact hothers.append_left _

/-- The list in memory when `peer` registers: every other configured peer is listed, with the
data it has last registered, as often as it is configured, and so is `peer` itself under
its name, with whatever data. -/
def WholeBut (peer : Peer) (s : Upkeep β) : Prop :=
  (others peer s.node.config.peers.elems).Perm (others peer s.configured) ∧
    entriesOf peer s.node.config.peers.elems = entriesOf peer s.configured

/-- The edit of a registration makes the list whole when it is so but for the peer itself. -/
theorem whole_register_iff {lib : Libraries β} {s s' : Upkeep β} {peer : Peer}
    (h : upkeepStep lib s (.register peer) = some s') : Whole s' ↔ WholeBut peer s := by
  simp only [upkeepStep, Upkeep.register, Option.ite_none_right_eq_some] at h
  replace h := h.2
  split at h
  next node hedit =>
    rw [← Option.some.inj h, editPeers_ok hedit]
    exact map_renew_perm_iff peer _ _
  · cases h

section Written

variable {loaded : Zones} {configured : List (Option Peer)} {d : ConfigData}
  {f : String → String}

/-- Unless a key ends in two dots, a document with trimmed names has the zones with their
literals. -/
theorem Kept.unabridged (hf : Worn f) (h : Kept loaded d.zones (trimDot ∘ f))
    (hdots : ∀ key ∈ loaded, HasDot key) (hlabels : ∀ key ∈ loaded, NoEmptyLabel key)
    (hpeers : d.peers.elems.Perm configured) : Unabridged configured loaded d := by
  obtain ⟨-, hkeys, hliterals⟩ := h
  have hname : ∀ key ∈ loaded, (trimDot ∘ f) key = trimDot key := fun key hkey =>
    hf.trimDot_eq ⟨hdots key hkey, hlabels key hkey⟩
  refine ⟨hpeers, fun key hkey => ?_, fun key hkey => ?_⟩
  · rw [← hname key hkey]
    exact hliterals hlabels key hkey
  · obtain ⟨k, hk, rfl⟩ := (hkeys key).mp hkey
    exact ⟨k, hk, (hname k hk).symm⟩

/-- A document that has been trimmed twice and has every zone that was loaded tells that no key
ends in two dots. -/
theorem Kept.noEmptyLabel (hf : Worn f) (h : Kept loaded d.zones (trimDot ∘ trimDot ∘ f))
    (hdots : ∀ key ∈ loaded, HasDot key)
    (hliterals : ∀ key ∈ loaded, literalsAt d.zones (trimDot key) = literalsAt loaded key) :
    ∀ key ∈ loaded, NoEmptyLabel key := by
  by_contra hlabel
  obtain ⟨key, hkey, hlost⟩ := exists_key_lost hdots hlabel hf
  have hmem : trimDot key ∈ d.zones := by
    rw [mem_iff_literalsAt, hliterals key hkey]
    exact mem_iff_literalsAt.mp hkey
  obtain ⟨k, hk, heq⟩ := (h.2.1 _).mp hmem
  exact hlost k hk heq

end Written

/-! ## Runs -/

/-- What every copy of the configuration keeps: it is in the class, and has the zones that were
loaded. -/
structure Preserves (D : Domain) (loaded : Zones) (d : ConfigData) : Prop where
  within : d.In D
  kept : ∃ f, Kept loaded d.zones f

/-- Every copy there is: the one in memory, the file that a request is about to read, and those
that requests have read.  And the checks hold peers of the class. -/
structure Upkeep.Preserves (lib : Libraries β) (D : Domain) (loaded : Zones) (s : Upkeep β) :
    Prop where
  memory : Border.Preserves D loaded s.node.config.toConfigData
  file : .saved ∈ s.requests →
    ∃ d, s.node.writtenJSON lib = some d ∧ Border.Preserves D loaded d
  copies : ∀ c : Config, .loaded c ∈ s.requests → Border.Preserves D loaded c.toConfigData
  watched : ∀ p, s.Watched (some p) → D.peer p

theorem preserves_start {lib : Libraries β} {D : Domain} {loaded : Config}
    (hin : loaded.toConfigData.In D) (disk : String → Option (File β)) :
    (Upkeep.start ⟨loaded, disk⟩).Preserves lib D loaded.zones where
  memory := ⟨hin, id, kept_self loaded.zones⟩
  file h := absurd h (by simp [Upkeep.start])
  copies c h := absurd h (by simp [Upkeep.start])
  watched p := by
    rintro ⟨w, hw, -⟩
    exact absurd hw (by simp [Upkeep.start])

section Runs

variable {lib : Libraries β} {D : Domain} (hjson : RoundTrips lib D)
  (hyaml : RoundTripsYAML lib D) {loaded : Zones} (hdots : ∀ key ∈ loaded, HasDot key)
include hdots

/-- What is loaded from a file that has kept the zones has kept them. -/
theorem Preserves.load {env : Env} {node : Node β} {c newConfig : Config} {filename : String}
    {d : ConfigData} (h : Preserves D loaded d) (hwritten : node.writtenJSON lib = some d)
    (hload : fromDisk lib env c filename (loadJSON lib) (node.disk node.jsonPath)
      = .ok newConfig) : Preserves D loaded newConfig.toConfigData := by
  obtain ⟨document, -, hfile, -, -⟩ := fromDisk_ok hload
  rw [hfile] at hload
  obtain ⟨data, converted, hdecode, hconvert, hdecorate, hnew⟩ := fromDisk_json_ok hload
  rw [Node.writtenJSON, hfile, decodeFile, hdecode] at hwritten
  obtain rfl := Option.some.inj hwritten
  obtain ⟨f, hkept⟩ := h.kept
  refine ⟨in_fromDisk_json hdecode h.within hload, addDot ∘ f, ?_⟩
  have hzones : (decorateZones (env.order .decorate) converted).1
      = renamed addDot (env.order .decorate) converted := renameZones_eq_renamed hdecorate
  rw [hnew, hzones]
  exact (hkept.converted hconvert).renamed hdots hkept.1.add _

/-- A save leaves copies that have kept the zones, in memory and in both files. -/
theorem Saves.kept {env : Env} {node node' : Node β} {json yaml : ConfigData} {f : String → String}
    (h : Saves lib env node node' json yaml) (hkept : Kept loaded node.config.zones f) :
    Kept loaded json.zones (trimDot ∘ f) ∧ Kept loaded yaml.zones (trimDot ∘ trimDot ∘ f) ∧
      Kept loaded node'.config.zones (trimDot ∘ trimDot ∘ f) := by
  have honce := hkept.renamed hdots hkept.1.trim (env.order .trimJSON)
  have htwice := honce.renamed hdots hkept.1.trim.trim (env.order .trimYAML)
  refine ⟨honce.agree h.jsonZones, htwice.agree h.yamlZones, ?_⟩
  rw [h.memory]
  exact htwice

include hjson hyaml

/-- **One save.**  It leaves both files unabridged exactly when it finds the list of peers whole
and no key ends in two dots. -/
theorem persisted_save {env : Env} {s : Upkeep β} {node' : Node β}
    (hs : s.Preserves lib D loaded) (h : (save lib env).run s.node = .ok () node') :
    Persisted lib loaded s.configured node' ↔ Whole s ∧ ∀ key ∈ loaded, NoEmptyLabel key := by
  obtain ⟨json, yaml, hsaves⟩ := save_written hjson hyaml hs.memory.within h
  obtain ⟨f, hkept⟩ := hs.memory.kept
  obtain ⟨hkeptJSON, hkeptYAML, -⟩ := hsaves.kept hdots hkept
  constructor
  · rintro ⟨⟨json', hjson', hfirst⟩, yaml', hyaml', hsecond⟩
    obtain rfl := Option.some.inj (hsaves.jsonWritten.symm.trans hjson')
    obtain rfl := Option.some.inj (hsaves.yamlWritten.symm.trans hyaml')
    refine ⟨?_, hkeptYAML.noEmptyLabel hkept.1 hdots hsecond.literals⟩
    rw [Whole, ← hsaves.jsonPeers]
    exact hfirst.peers
  · rintro ⟨hwhole, hlabels⟩
    refine ⟨⟨json, hsaves.jsonWritten, hkeptJSON.unabridged hkept.1 hdots hlabels ?_⟩, yaml,
      hsaves.yamlWritten, hkeptYAML.unabridged hkept.1.trim hdots hlabels ?_⟩
    · rw [hsaves.jsonPeers]
      exact hwhole
    · rw [hsaves.yamlPeers]
      exact hwhole

/-- **No step loses a zone**, or leads out of the class. -/
theorem preserves_step {s s' : Upkeep β} {act : UpkeepAct} (hs : s.Preserves lib D loaded)
    (hact : ∀ peer, act = .register peer → D.peer peer) (h : upkeepStep lib s act = some s') :
    s'.Preserves lib D loaded := by
  cases upkeepStep_move h with
  | unsaved hnot hu =>
    have hpeers : ∀ p, some p ∈ s'.node.config.peers.elems → D.peer p := fun p hp =>
      (hu.peers _ hp).elim (hs.memory.within.peers p) (hs.watched p)
    obtain ⟨f, hkept⟩ := hs.memory.kept
    refine ⟨⟨⟨?_, hpeers, hs.memory.within.zones.agree hu.zones⟩, f, hkept.agree hu.zones⟩,
      fun hfile => ?_, fun c hc => ?_, fun p hp => ?_⟩
    · rw [hu.settings.1, hu.settings.2]
      exact hs.memory.within.settings
    · rw [hu.requests] at hfile
      rw [Node.writtenJSON, Node.jsonPath, hu.disk, hu.base]
      exact hs.file hfile
    · rw [hu.requests] at hc
      exact hs.copies c hc
    · exact (hu.watched _ hp).elim (hs.memory.within.peers p) (hs.watched p)
  | @register peer node hedit =>
    have hin := in_editPeers (hact peer rfl) hs.memory.within hedit
    obtain rfl := editPeers_ok hedit
    refine ⟨⟨hin, hs.memory.kept⟩, fun hfile => hs.file ?_, fun c hc => hs.copies c ?_, hs.watched⟩
    · simpa using hfile
    · simpa using hc
  | save hk hsave =>
    obtain ⟨json, yaml, hsaves⟩ := save_written hjson hyaml hs.memory.within hsave
    obtain ⟨f, hkept⟩ := hs.memory.kept
    obtain ⟨hkeptJSON, -, hkeptMemory⟩ := hsaves.kept hdots hkept
    obtain ⟨hin, document, d, hfile, hdecode, hd⟩ := in_save hjson hs.memory.within hsave
    refine ⟨⟨hin, _, hkeptMemory⟩, fun _ => ⟨json, hsaves.jsonWritten, ?_, _, hkeptJSON⟩,
      fun c hc => ?_, hs.watched⟩
    · have hwritten := hsaves.jsonWritten
      rw [Node.writtenJSON, hfile, decodeFile, hdecode] at hwritten
      rw [← Option.some.inj hwritten]
      exact hd
    · exact hs.copies c ((List.mem_or_eq_of_mem_set hc).resolve_right fun h => by cases h)
  | load hk hload =>
    obtain ⟨d, hwritten, hd⟩ := hs.file (List.mem_of_getElem? hk)
    refine ⟨hs.memory, fun hfile => ?_, fun c hc => ?_, hs.watched⟩
    · exact hs.file ((List.mem_or_eq_of_mem_set hfile).resolve_right fun h => by cases h)
    · rcases List.mem_or_eq_of_mem_set hc with hc | hc
      · exact hs.copies c hc
      · cases hc
        exact hd.load hdots hwritten hload
  | @install k env newConfig hk =>
    have hcopy := hs.copies newConfig (List.mem_of_getElem? hk)
    refine ⟨hcopy, fun hfile => ?_, fun c hc => ?_, ?_⟩
    · exact hs.file ((List.mem_or_eq_of_mem_set hfile).resolve_right fun h => by cases h)
    · exact hs.copies c ((List.mem_or_eq_of_mem_set hc).resolve_right fun h => by cases h)
    · rintro p ⟨w, hw, hclosure⟩
      obtain ⟨v, hv, rfl⟩ := List.mem_map.mp hw
      exact hs.watched p ⟨v, hv, hclosure⟩

end Runs

/-- Steps that do not write leave the files. -/
theorem Persisted.of_disk {lib : Libraries β} {loaded : Zones} {configured : List (Option Peer)}
    {node node' : Node β} (h : Persisted lib loaded configured node)
    (hdisk : node'.disk = node.disk)
    (hbase : node'.config.filenamePrefix = node.config.filenamePrefix) :
    Persisted lib loaded configured node' := by
  unfold Persisted Node.writtenJSON Node.writtenYAML Node.jsonPath Node.yamlPath at *
  rw [hdisk, hbase]
  exact h

/-- Only a save writes, and then it notes what is configured. -/
theorem upkeepStep_saved {lib : Libraries β} {s s' : Upkeep β} {act : UpkeepAct}
    (h : upkeepStep lib s act = some s') :
    (s'.saved = s.saved ∧ s'.node.disk = s.node.disk ∧
        s'.node.config.filenamePrefix = s.node.config.filenamePrefix) ∨
      ∃ k env, act = .proceed k env ∧ s.requests[k]? = some .edited ∧
        (save lib env).run s.node = .ok () s'.node ∧ s'.saved = some s.configured := by
  cases upkeepStep_move h with
  | unsaved hnot hu => exact Or.inl ⟨hu.saved, hu.disk, hu.base⟩
  | register hedit =>
    rw [editPeers_ok hedit]
    exact Or.inl ⟨rfl, rfl, rfl⟩
  | save hk hsave => exact Or.inr ⟨_, _, rfl, hk, hsave, rfl⟩
  | load hk hload => exact Or.inl ⟨rfl, rfl, rfl⟩
  | install hk => exact Or.inl ⟨rfl, rfl, rfl⟩

/-- A request that has edited the list goes on with a save. -/
theorem proceed_edited {lib : Libraries β} {s s' : Upkeep β} {k : ℕ} {env : Env}
    (hk : s.requests[k]? = some .edited) (h : upkeepStep lib s (.proceed k env) = some s') :
    (save lib env).run s.node = .ok () s'.node ∧ s'.configured = s.configured := by
  simp only [upkeepStep, Upkeep.proceed, hk] at h
  split at h
  next node hsave =>
    rw [← Option.some.inj h]
    exact ⟨hsave, rfl⟩
  · cases h

/-- **What is persisted.**  Take a configuration of the class that was loaded, and a run of
launches, steps of the health checkers, elections and steps of registrations of configured peers,
in any interleaving.

If no zone has a name that ends in two dots and every save finds the list of peers whole, then
from the first save on both files list every peer that was configured at the last one and have
every literal that was loaded.

And whatever the run was, a save leaves such files exactly when it finds the list whole and no
zone has a name that ends in two dots; a registration that nothing interrupts does so exactly when
it finds the list whole but for its own peer. -/
theorem registrations_persist {lib : Libraries β} {D : Domain} (hjson : RoundTrips lib D)
    (hyaml : RoundTripsYAML lib D) {c₀ loaded : Config} {loadEnv : Env} {filename : String}
    {loader : β → Except String Config} {file : Option (File β)}
    (hload : fromDisk lib loadEnv c₀ filename loader file = .ok loaded)
    (hin : loaded.toConfigData.In D) {disk : String → Option (File β)} {acts : List UpkeepAct}
    (hpeers : ∀ peer, .register peer ∈ acts → D.peer peer) {s : Upkeep β}
    (hrun : run (upkeepStep lib) (.start ⟨loaded, disk⟩) acts = some s) :
    ((∀ key ∈ loaded.zones, NoEmptyLabel key) →
      Along (upkeepStep lib) Unpruned (.start ⟨loaded, disk⟩) acts →
      ∀ configured, s.saved = some configured →
        Persisted lib loaded.zones configured s.node) ∧
    (∀ k env s', s.requests[k]? = some .edited →
      upkeepStep lib s (.proceed k env) = some s' →
      (Persisted lib loaded.zones s'.configured s'.node ↔
        Whole s ∧ ∀ key ∈ loaded.zones, NoEmptyLabel key)) ∧
    ∀ peer env node', D.peer peer → Peer.name peer ∈ s.configured.map Peer.name →
      (handlePeerRegister lib env (some peer)).run s.node = .ok () node' →
      (Persisted lib loaded.zones (s.configured.map (renew peer)) node' ↔
        WholeBut peer s ∧ ∀ key ∈ loaded.zones, NoEmptyLabel key) := by
  have hdots : ∀ key ∈ loaded.zones, HasDot key := by
    intro key hkey
    obtain ⟨zone, hzone⟩ := Finmap.mem_iff.mp hkey
    exact (zonesLoaded_of_fromDisk hload key zone hzone).1
  have hstart : (Upkeep.start ⟨loaded, disk⟩).Preserves lib D loaded.zones :=
    preserves_start hin disk
  have hwithin : Along (upkeepStep lib) (fun _ act => ∀ peer, act = .register peer → D.peer peer)
      (.start ⟨loaded, disk⟩) acts :=
    along_of_forall (G := fun act => ∀ peer, act = UpkeepAct.register peer → D.peer peer)
      (fun act hact peer heq => hpeers peer (heq ▸ hact)) _
  have hs : s.Preserves lib D loaded.zones := run_invariant_along
    (fun _ _ _ ht hact hstep => preserves_step hjson hyaml hdots ht hact hstep) hstart hwithin hrun
  refine ⟨fun hlabels halong => ?_, fun k env s' hk hstep => ?_, ?_⟩
  · -- the invariant: what was last saved is still in the files
    refine (run_invariant_along
      (P := fun t => t.Preserves lib D loaded.zones ∧ ∀ configured, t.saved = some configured →
        Persisted lib loaded.zones configured t.node)
      (fun t act t' ht hact hstep => ?_)
      ⟨hstart, fun _ h => absurd h (by simp [Upkeep.start])⟩ (along_and halong hwithin) hrun).2
    refine ⟨preserves_step hjson hyaml hdots ht.1 hact.2 hstep, fun configured hconfigured => ?_⟩
    rcases upkeepStep_saved hstep with ⟨hsaved, hdisk, hbase⟩ | ⟨k, env, rfl, hk, hsaved, hnoted⟩
    · rw [hsaved] at hconfigured
      exact (ht.2 configured hconfigured).of_disk hdisk hbase
    · obtain rfl := Option.some.inj (hnoted.symm.trans hconfigured)
      exact (persisted_save hjson hyaml hdots ht.1 hsaved).mpr ⟨hact.1 hk, hlabels⟩
  · obtain ⟨hsave, hsame⟩ := proceed_edited hk hstep
    rw [hsame]
    exact persisted_save hjson hyaml hdots hs hsave
  · intro peer env node' hpeer hname hregister
    obtain ⟨edited, saved, s', hedit, hproceed, -, hk, hconfigured, -, hdisk, hbase⟩ :=
      handlePeerRegister_proceed hname hregister
    have hedited : edited.Preserves lib D loaded.zones := by
      refine preserves_step hjson hyaml hdots hs (fun p hp => ?_) hedit
      cases hp
      exact hpeer
    have hiff := persisted_save hjson hyaml hdots hedited (proceed_edited hk hproceed).1
    rw [← whole_register_iff hedit, ← hiff, hconfigured]
    exact ⟨fun h => h.of_disk hdisk.symm hbase.symm, fun h => h.of_disk hdisk hbase⟩

/-! ## Two peers and an address -/

theorem roundTripsYAML_plainLibraries : RoundTripsYAML plainLibraries Domain.all := by
  intro d document _ h
  obtain rfl := Except.ok.inj h
  exact ⟨d, rfl, rfl, rfl, rfl, rfl, fun _ => rfl⟩

/-- A document with the peers foo and bar and an A record whose address is checked. -/
def watchedDocument : ConfigData :=
  { ConfigData.zero with
    authKey := some ⟨[], "auth", "dir"⟩
    peers := some [some (peerNamed "foo"), some (peerNamed "bar")]
    zones := Finmap.singleton "test" (some {
      soa := some ⟨"test", "admin.test", 60, 1, 60, 1, 120⟩
      ns := some ⟨["ns.test"], 0⟩
      records := some [some ⟨.a, "web.test", some [("addresses", .arr [.str "10.0.0.1"]),
        ("healthcheck", .arr [.obj [("failures", .num 1 0)]])], none⟩] }) }

/-- The disk it is loaded from. -/
def watchedDisk : String → Option (File ConfigData) :=
  Function.update (fun _ => none) "border.json" (some (.doc watchedDocument))

/-- What is loaded. -/
def loadWatched : Except Failure Config :=
  fromDisk plainLibraries calmEnv (Config.new []) "border.json" (loadJSON plainLibraries)
    (watchedDisk "border.json")

/-- A new round of the first checker: check 0 is that of foo, 1 that of bar, and 2 that of
the address. -/
def watchRound (failing : List ℕ) : UpkeepAct :=
  .check 0 (.startRound fun i => if i ∈ failing then .failure else .success)

/-- A section of check `i`; the named peers answer an election. -/
def watchSection (i : ℕ) (sec : CheckSection) (names : List String) : UpkeepAct :=
  .check 0 (.section i sec ⟨sortedOrder String ℤ,
    names.map fun name => ⟨some (peerNamed name), .uptime 60⟩⟩)

/-- Foo is launched.  The address fails and is pruned; bar fails three times and is
removed. -/
def barFails : List UpkeepAct :=
  [.launch (machineAt 0) "foo",
    watchRound [1, 2], watchSection 0 .revive [], watchSection 0 .clearFailures [],
    watchSection 1 .countFailure [], watchSection 2 .countFailure [],
    watchSection 2 .failedAction [], watchSection 2 .markFailed [],
    watchRound [1, 2], watchSection 0 .revive [], watchSection 0 .clearFailures [],
    watchSection 1 .countFailure [], watchSection 2 .countFailure [],
    watchRound [1, 2], watchSection 0 .revive [], watchSection 0 .clearFailures [],
    watchSection 1 .countFailure [], watchSection 1 .failedAction ["foo"],
    watchSection 1 .markFailed [], watchSection 2 .countFailure []]

/-- Bar comes back. -/
def barRevives : List UpkeepAct :=
  [watchRound [2], watchSection 0 .revive [], watchSection 0 .clearFailures [],
    watchSection 1 .revive ["foo", "bar"], watchSection 1 .clearFailures [],
    watchSection 2 .countFailure []]

theorem noEmptyLabel_of_names {zones : Zones} (h : ZonesNames NoEmptyLabel zones) :
    ∀ key ∈ zones, NoEmptyLabel key := by
  intro key hkey
  obtain ⟨zone, hzone⟩ := Finmap.mem_iff.mp hkey
  exact (h key zone hzone).1

/-- Foo registers with a new address: the edit, the save, the load and `CopyFrom`. -/
def fooRegisters : List UpkeepAct :=
  .register (newAddresses 0) :: List.replicate 3 (.proceed 0 calmEnv)

/-- Foo registers after bar has come back, while the address is still pruned: both files have
both peers and the literal of the address. -/
theorem registrations_persist_revived :
    ∃ loaded s s' configured, loadWatched = .ok loaded ∧
      run (upkeepStep plainLibraries) (.start ⟨loaded, watchedDisk⟩) (barFails ++ barRevives)
        = some s ∧
      addressesAt s.node.config.zones "test." 0 = [] ∧
      run (upkeepStep plainLibraries) (.start ⟨loaded, watchedDisk⟩)
        (barFails ++ barRevives ++ fooRegisters) = some s' ∧
      s'.saved = some configured ∧
      configured = [some (newAddresses 0), some (peerNamed "bar")] ∧
      Persisted plainLibraries loaded.zones configured s'.node := by
  have hall : okWith (fun c => decide (ZonesNames NoEmptyLabel c.zones ∧
      Along (upkeepStep plainLibraries) Unpruned (.start ⟨c, watchedDisk⟩)
        (barFails ++ barRevives ++ fooRegisters)) &&
      (run (upkeepStep plainLibraries) (.start ⟨c, watchedDisk⟩) (barFails ++ barRevives)).any
        fun s => addressesAt s.node.config.zones "test." 0 = [] ∧
          ((run (upkeepStep plainLibraries) s fooRegisters).any
            fun s' => s'.saved = some [some (newAddresses 0), some (peerNamed "bar")]) = true)
      loadWatched = true := by
    decide +kernel
  obtain ⟨c, hload, htest⟩ := okWith_eq_true hall
  obtain ⟨hfacts, hany⟩ := Bool.and_eq_true_iff.mp htest
  obtain ⟨hnames, halong⟩ := of_decide_eq_true hfacts
  obtain ⟨s, hrun, hs⟩ := (Option.any_eq_true _ _).mp hany
  obtain ⟨haddresses, hnext⟩ := of_decide_eq_true hs
  obtain ⟨s', hsteps, hsaved⟩ := (Option.any_eq_true _ _).mp hnext
  have hsaved := of_decide_eq_true hsaved
  have hrun' : run (upkeepStep plainLibraries) (.start ⟨c, watchedDisk⟩)
      (barFails ++ barRevives ++ fooRegisters) = some s' := (run_append hrun).trans hsteps
  exact ⟨c, s, s', _, hload, hrun, haddresses, hrun', hsaved, rfl,
    (registrations_persist roundTrips_plainLibraries roundTripsYAML_plainLibraries hload
      (ConfigData.in_all _) (fun _ _ => trivial) hrun').1
      (noEmptyLabel_of_names hnames) halong _ hsaved⟩

/-- **A peer that was down is deleted.**  Foo registers while bar is down: neither file lists
bar, and the launch that follows makes no check for it, so that nothing adds it again. -/
theorem pruned_peer_deleted :
    ∃ loaded s s' s'', loadWatched = .ok loaded ∧
      (∀ key ∈ loaded.zones, NoEmptyLabel key) ∧
      run (upkeepStep plainLibraries) (.start ⟨loaded, watchedDisk⟩) barFails = some s ∧
      run (upkeepStep plainLibraries) s fooRegisters = some s' ∧
      s'.saved = some [some (newAddresses 0), some (peerNamed "bar")] ∧
      (s'.node.writtenJSON plainLibraries).map (fun d => d.peers.elems)
        = some [some (newAddresses 0)] ∧
      (s'.node.writtenYAML plainLibraries).map (fun d => d.peers.elems)
        = some [some (newAddresses 0)] ∧
      ¬ Persisted plainLibraries loaded.zones [some (newAddresses 0), some (peerNamed "bar")]
        s'.node ∧
      upkeepStep plainLibraries s' (.launch (machineAt 5) "foo") = some s'' ∧
      (s''.watches.getLast?.map fun w => w.built.made.map HealthCheckAction.closure)
        = some [.peer (some (newAddresses 0)), .address "test." 0] := by
  have hall : okWith (fun c => decide (ZonesNames NoEmptyLabel c.zones) &&
      (run (upkeepStep plainLibraries) (.start ⟨c, watchedDisk⟩) barFails).any fun s =>
        (run (upkeepStep plainLibraries) s fooRegisters).any fun s' =>
          decide (s'.saved = some [some (newAddresses 0), some (peerNamed "bar")] ∧
            (s'.node.writtenJSON plainLibraries).map (fun d => d.peers.elems)
              = some [some (newAddresses 0)] ∧
            (s'.node.writtenYAML plainLibraries).map (fun d => d.peers.elems)
              = some [some (newAddresses 0)]) &&
          (upkeepStep plainLibraries s' (.launch (machineAt 5) "foo")).any fun s'' =>
            (s''.watches.getLast?.map fun w => w.built.made.map HealthCheckAction.closure)
              = some [.peer (some (newAddresses 0)), .address "test." 0]) loadWatched = true := by
    decide +kernel
  obtain ⟨c, hload, htest⟩ := okWith_eq_true hall
  obtain ⟨hnames, hany⟩ := Bool.and_eq_true_iff.mp htest
  obtain ⟨s, hrun, hs⟩ := (Option.any_eq_true _ _).mp hany
  obtain ⟨s', hsteps, hs'⟩ := (Option.any_eq_true _ _).mp hs
  obtain ⟨hfacts, hnext⟩ := Bool.and_eq_true_iff.mp hs'
  obtain ⟨s'', hlaunch, hchecks⟩ := (Option.any_eq_true _ _).mp hnext
  obtain ⟨hsaved, hjson, hyaml⟩ := of_decide_eq_true hfacts
  refine ⟨c, s, s', s'', hload, noEmptyLabel_of_names (of_decide_eq_true hnames), hrun, hsteps,
    hsaved, hjson, hyaml, ?_, hlaunch, of_decide_eq_true hchecks⟩
  rintro ⟨⟨json, hwritten, hunabridged⟩, -⟩
  rw [hwritten] at hjson
  have hpeers : json.peers.elems = [some (newAddresses 0)] := Option.some.inj hjson
  have hlength := hunabridged.peers.length_eq
  rw [hpeers] at hlength
  exact absurd hlength (by simp)

end Border
