/-
# The configuration

Model of `pkg/config/config.go`, `pkg/config/record.go` and the record types of
`pkg/dnsconfig/dnsconfig.go`: the configuration, the search for a peer, and the loops
that take the trailing dot off every name before a save and put it back after a load.

Pointers that a JSON document can leave nil are `Option`s, and following a nil one is a
`Failure.panic`.  The fields that are read from and written to disk are gathered in
`ConfigData`.

`dotted_iff` says which names survive a trim followed by a decoration: those with
exactly one trailing dot.
-/
import Border.GoMap
import Border.HealthCheck
import Border.Json
import Border.NetAddr

namespace Border

open GoJson GoMap NetAddr

/-- Why a call did not succeed: it returned an error, panicked, or ended the process with
a `Fatalf`. -/
inductive Failure
  | error (msg : String)
  | panic (msg : String)
  | exit (msg : String)
  deriving DecidableEq, Repr

/-- A failure with a text in front of its error; only errors are wrapped. -/
def Failure.wrap (label : String) : Failure → Failure
  | .error e => .error (label ++ e)
  | .panic e => .panic e
  | .exit e => .exit e

/-- Following a nil pointer. -/
def nilDereference : Failure :=
  .panic "runtime error: invalid memory address or nil pointer dereference"

/-- A sequence of two calls succeeds when both do. -/
theorem bind_ok {α β : Type} {x : Except Failure α} {f : α → Except Failure β} {b : β}
    (h : (x >>= f) = .ok b) : ∃ a, x = .ok a ∧ f a = .ok b := by
  cases x with
  | error e => exact absurd h (by simp [bind, Except.bind])
  | ok a => exact ⟨a, rfl, h⟩

theorem map_ok {α β : Type} {x : Except Failure α} {f : α → β} {b : β}
    (h : x.map f = .ok b) : ∃ a, x = .ok a ∧ f a = b := by
  cases x with
  | error e => exact absurd h (by simp [Except.map])
  | ok a => exact ⟨a, rfl, Except.ok.inj h⟩

/-- The call succeeds, and its result passes the test. -/
def okWith {α : Type} (test : α → Bool) : Except Failure α → Bool
  | .ok a => test a
  | .error _ => false

theorem okWith_eq_true {α : Type} {test : α → Bool} {x : Except Failure α}
    (h : okWith test x = true) : ∃ a, x = .ok a ∧ test a = true := by
  cases x with
  | error e => exact absurd h (by simp [okWith])
  | ok a => exact ⟨a, rfl, h⟩

/-- A loop that collects one result for each element succeeds when every call does. -/
theorem mapM_eq_ok_iff {α β : Type} {f : α → Except Failure β} {l : List α} {r : List β} :
    l.mapM f = .ok r ↔ l.map f = r.map .ok := by
  induction l generalizing r with
  | nil =>
    rw [List.mapM_nil, List.map_nil, eq_comm (a := []), List.map_eq_nil_iff]
    exact ⟨fun h => (Except.ok.inj h).symm, fun h => congrArg Except.ok h.symm⟩
  | cons x xs ih =>
    rw [List.mapM_cons, List.map_cons]
    constructor
    · intro h
      obtain ⟨y, hy, h⟩ := bind_ok h
      obtain ⟨ys, hys, h⟩ := bind_ok h
      rw [← Except.ok.inj h, List.map_cons, hy, ih.mp hys]
    · intro h
      cases r with
      | nil => exact absurd h (by simp)
      | cons y ys =>
        rw [List.map_cons, List.cons.injEq] at h
        rw [h.1, ih.mpr h.2]
        rfl

/-- The results of such a loop, position by position. -/
theorem mapM_eq_ok_iff_forall₂ {α β : Type} {f : α → Except Failure β} {l : List α}
    {r : List β} : l.mapM f = .ok r ↔ List.Forall₂ (fun a b => f a = .ok b) l r := by
  rw [mapM_eq_ok_iff, ← List.forall₂_eq_eq_eq, List.forall₂_map_left_iff,
    List.forall₂_map_right_iff]

/-- The result of such a loop for one element. -/
theorem exists_of_mapM {α β : Type} {f : α → Except Failure β} {l : List α} {r : List β}
    (h : l.mapM f = .ok r) {a : α} (ha : a ∈ l) : ∃ b ∈ r, f a = .ok b := by
  have hmem : f a ∈ r.map Except.ok := by
    rw [← mapM_eq_ok_iff.mp h]
    exact List.mem_map_of_mem ha
  obtain ⟨b, hb, heq⟩ := List.mem_map.mp hmem
  exact ⟨b, hb, heq.symm⟩

/-- What holds of every result holds of the results of such a loop. -/
theorem map_of_mapM {α β γ : Type} {f : α → Except Failure β} {g : β → γ} {g' : α → γ}
    {l : List α} {r : List β} (hfg : ∀ a ∈ l, ∀ b, f a = .ok b → g b = g' a)
    (h : l.mapM f = .ok r) : r.map g = l.map g' := by
  rw [mapM_eq_ok_iff] at h
  induction l generalizing r with
  | nil =>
    rw [List.map_nil, eq_comm, List.map_eq_nil_iff] at h
    rw [h]
    rfl
  | cons x xs ih =>
    cases r with
    | nil => exact absurd h (by simp)
    | cons y ys =>
      rw [List.map_cons, List.map_cons, List.cons.injEq] at h
      rw [List.map_cons, List.map_cons, hfg x List.mem_cons_self y h.1,
        ih (fun a ha => hfg a (List.mem_cons_of_mem _ ha)) h.2]

/-- The `%q` of a text. -/
def quoted (s : String) : String := "\"" ++ s ++ "\""

/-! ## Peers -/

/-- `jose.JSONWebKey`, for a symmetric key. -/
structure JSONWebKey where
  key : List UInt8
  keyID : String
  algorithm : String
  deriving DecidableEq, Repr

/-- `config.Peer`. -/
structure Peer where
  ips : Slice IP
  controlServer : String
  key : Option JSONWebKey
  deriving DecidableEq, Repr

/-- `Peer.Name`: the id of the peer's key. -/
def Peer.name : Option Peer → Except Failure String
  | none => .error nilDereference
  | some p =>
    match p.key with
    | none => .error nilDereference
    | some key => .ok key.keyID

/-- `ErrPeerNotFound`. -/
def errPeerNotFound : Failure := .error "peer not found"

/-- `Config.FindPeer`, over the list of peers: the first one of that name. -/
def findPeer (name : String) : List (Option Peer) → Except Failure (Option Peer)
  | [] => .error errPeerNotFound
  | peer :: peers =>
    match Peer.name peer with
    | .error e => .error e
    | .ok n => if n = name then .ok peer else findPeer name peers

/-! ## Records and zones -/

/-- `dnsconfig.SOA`. -/
structure SOA where
  domain : String
  admin : String
  minTTL : ℕ
  serial : ℕ
  refresh : ℕ
  retry : ℕ
  expire : ℕ
  deriving DecidableEq, Repr

/-- `dnsconfig.NS`. -/
structure NS where
  servers : List String
  ttl : ℕ
  deriving DecidableEq, Repr

/-- `dnsconfig.A`, the value of an A record. -/
structure ARecord where
  addresses : List IP
  ttl : ℕ
  healthCheck : List HealthCheck
  deriving DecidableEq

/-- `dnsconfig.TLSLB`. -/
structure TLSLB where
  caCertificate : List UInt8
  certificate : List UInt8
  key : List UInt8
  deriving DecidableEq

/-- `dnsconfig.LB`, the value of a load balancer record. -/
structure LBRecord where
  listeners : List String
  kind : String
  backends : List String
  simultaneousConnections : ℤ
  maxConnectionsPerAddress : ℤ
  connectionTimeout : ℤ
  ttl : ℕ
  tls : Option TLSLB
  healthCheck : List HealthCheck
  deriving DecidableEq

/-- `dnsconfig.DefaultSimultaneousConnections`. -/
def defaultSimultaneousConnections : ℤ := 16384

/-- `dnsconfig.DefaultMaxConnectionsPerAddress`. -/
def defaultMaxConnectionsPerAddress : ℤ := 32768

/-- The values a `dnsconfig.Record` can hold. -/
inductive RecordValue
  | a (value : ARecord)
  | lb (value : LBRecord)
  deriving DecidableEq

/-- The texts of `Record.Type`: `TypeA`, `TypeLB`, and those that loading refuses. -/
inductive RecordType
  | a
  | lb
  | other (type : String)
  deriving DecidableEq, Repr

def RecordType.ofString (s : String) : RecordType :=
  if s = "A" then .a else if s = "LB" then .lb else .other s

/-- `config.Record`.  The entries of a literal stand in the order in which a loop visits
them. -/
structure Record where
  type : RecordType
  name : String
  literalValue : Option (List (String × Json))
  value : Option RecordValue

/-- `config.Zone`. -/
@[ext]
structure Zone where
  soa : Option SOA
  ns : Option NS
  records : Slice (Option Record)

/-- A record as it is saved: without the value converted from its literal. -/
def Record.exported (r : Record) : Record := { r with value := none }

/-- A zone as it is saved. -/
def Zone.exported (z : Zone) : Zone :=
  { z with records := z.records.map (List.map (Option.map Record.exported)) }

/-- The zones by their names. -/
abbrev Zones := Finmap (fun _ : String => Option Zone)

/-! ## The configuration -/

/-- `config.ListenConfig`. -/
structure ListenConfig where
  dns : String
  control : String
  deriving DecidableEq, Repr

/-- The fields of a `Config` that are read from and written to disk. -/
structure ConfigData where
  shutdownWait : ℤ
  authKey : Option JSONWebKey
  listen : ListenConfig
  peers : Slice (Option Peer)
  zones : Zones

/-- `config.Config`.  The chain is the list of its sums. -/
structure Config extends ConfigData where
  filenamePrefix : String
  publisher : Option Peer
  chain : List String
  /-- Whether a signal waits in the reload channel. -/
  reload : Bool

/-- A configuration without any setting. -/
def ConfigData.zero : ConfigData := ⟨0, none, ⟨"", ""⟩, none, ∅⟩

/-- `config.New`. -/
def Config.new (chain : List String) : Config :=
  { ConfigData.zero with filenamePrefix := "", publisher := none, chain := chain, reload := false }

/-- `Config.CopyFrom`: neither the chain nor the publisher is copied. -/
def Config.copyFrom (c newConfig : Config) : Config :=
  { c with toConfigData := newConfig.toConfigData }

/-! ## Trailing dots -/

/-- `strings.HasSuffix(key, ".")`. -/
def HasDot (key : String) : Prop := key.toList.getLast? = some '.'

instance (key : String) : Decidable (HasDot key) :=
  inferInstanceAs (Decidable (key.toList.getLast? = some '.'))

/-- `trimDot`: without one trailing dot. -/
def trimDot (key : String) : String :=
  if HasDot key then String.ofList key.toList.dropLast else key

/-- `addDot`: with a trailing dot. -/
def addDot (key : String) : String :=
  if HasDot key then key else key ++ "."

/-- A name with exactly one trailing dot. -/
def Dotted (key : String) : Prop := HasDot key ∧ ¬ HasDot (trimDot key)

instance (key : String) : Decidable (Dotted key) :=
  inferInstanceAs (Decidable (HasDot key ∧ ¬ HasDot (trimDot key)))

theorem hasDot_addDot (key : String) : HasDot (addDot key) := by
  unfold addDot
  split_ifs with h
  · exact h
  · unfold HasDot
    simp

/-- Taking a dot off a name that has one and putting it back. -/
theorem trimDot_append_dot {key : String} (h : HasDot key) : trimDot key ++ "." = key := by
  have hne : key.toList ≠ [] := by
    intro hnil
    unfold HasDot at h
    rw [hnil] at h
    exact absurd h (by simp)
  have hlast : key.toList.getLast hne = '.' := by
    unfold HasDot at h
    rw [List.getLast?_eq_some_getLast hne] at h
    exact Option.some.inj h
  rw [trimDot, if_pos h]
  apply String.toList_inj.mp
  have hcat := List.dropLast_append_getLast hne
  rw [hlast] at hcat
  simpa using hcat

/-- Which names survive a trim followed by a decoration. -/
theorem dotted_iff (key : String) : Dotted key ↔ addDot (trimDot key) = key := by
  constructor
  · rintro ⟨h1, h2⟩
    rw [addDot, if_neg h2]
    exact trimDot_append_dot h1
  · intro h
    have hdot : HasDot key := by
      rw [← h]
      exact hasDot_addDot _
    refine ⟨hdot, fun h2 => ?_⟩
    rw [addDot, if_pos h2] at h
    have hcat := trimDot_append_dot hdot
    rw [h] at hcat
    have hlen := congrArg String.length hcat
    simp at hlen

/-! ## Renaming the zones

`trimZones` and `decorateZones` are one loop with two functions on names.  It writes
into the zone and record objects as it goes, so a panic leaves the zones renamed up to
the nil pointer, still under their old keys. -/

/-- The records of a zone, up to a nil one. -/
def renameRecords (f : String → String) :
    List (Option Record) → List (Option Record) × Option Failure
  | [] => ([], none)
  | none :: rest => (none :: rest, some nilDereference)
  | some r :: rest =>
    let rest' := renameRecords f rest
    (some { r with name := f r.name } :: rest'.1, rest'.2)

/-- The body of the loop for one zone. -/
def renameZone (f : String → String) : Option Zone → Option Zone × Option Failure
  | none => (none, some nilDereference)
  | some z =>
    match z.soa with
    | none => (some z, some nilDereference)
    | some soa =>
      let soa' := { soa with domain := f soa.domain, admin := f soa.admin }
      match z.ns with
      | none => (some { z with soa := some soa' }, some nilDereference)
      | some ns =>
        let records := renameRecords f z.records.elems
        (some { soa := some soa', ns := some { ns with servers := ns.servers.map f },
                records := z.records.map fun _ => records.1 }, records.2)

/-- The loop over the given keys.  `zones` is the map it ranges over, `newZones` the one
it builds. -/
def renameZones (f : String → String) : List String → Zones → Zones → Zones × Option Failure
  | [], _, newZones => (newZones, none)
  | key :: keys, zones, newZones =>
    match zones.lookup key with
    | none => renameZones f keys zones newZones
    | some zone =>
      match renameZone f zone with
      | (zone', some failure) => (zones.insert key zone', some failure)
      | (zone', none) =>
        renameZones f keys (zones.insert key zone') (newZones.insert (f key) zone')

/-- `Config.trimZones`: the zones it leaves, and the panic. -/
def trimZones (order : RangeOrder String (Option Zone)) (zones : Zones) :
    Zones × Option Failure :=
  renameZones trimDot (order.keys zones) zones ∅

/-- `Config.decorateZones`: the zones it leaves, and the panic. -/
def decorateZones (order : RangeOrder String (Option Zone)) (zones : Zones) :
    Zones × Option Failure :=
  renameZones addDot (order.keys zones) zones ∅

/-! ### What a complete loop leaves -/

/-- A record under another name. -/
def Record.rename (f : String → String) (r : Record) : Record := { r with name := f r.name }

/-- An SOA entry with its names renamed. -/
def SOA.rename (f : String → String) (soa : SOA) : SOA :=
  { soa with domain := f soa.domain, admin := f soa.admin }

/-- An NS entry with its servers renamed. -/
def NS.rename (f : String → String) (ns : NS) : NS := { ns with servers := ns.servers.map f }

/-- A zone with every name renamed. -/
def Zone.rename (f : String → String) (z : Zone) : Zone where
  soa := z.soa.map (SOA.rename f)
  ns := z.ns.map (NS.rename f)
  records := z.records.map (List.map (Option.map (Record.rename f)))

theorem renameRecords_complete {f : String → String} {rs : List (Option Record)}
    (h : (renameRecords f rs).2 = none) :
    (renameRecords f rs).1 = rs.map (Option.map (Record.rename f)) := by
  induction rs with
  | nil => rfl
  | cons r rs ih =>
    cases r with
    | none => exact absurd h (by simp [renameRecords])
    | some r =>
      show _ :: (renameRecords f rs).1 = _
      rw [ih h]
      rfl

theorem renameZone_complete {f : String → String} {zone : Option Zone}
    (h : (renameZone f zone).2 = none) :
    (renameZone f zone).1 = zone.map (Zone.rename f) := by
  cases zone with
  | none => exact absurd h (by simp [renameZone])
  | some z =>
    obtain ⟨soa, ns, records⟩ := z
    cases soa with
    | none => exact absurd h (by simp [renameZone])
    | some soa =>
      cases ns with
      | none => exact absurd h (by simp [renameZone])
      | some ns =>
        have hrecords : (renameRecords f records.elems).1 = _ := renameRecords_complete h
        simp only [renameZone, Option.map_some, Zone.rename, SOA.rename, NS.rename, hrecords]
        cases records <;> rfl

/-- **A complete loop builds the renamed map.**  The objects it has written already are
not visited again. -/
theorem renameZones_complete {f : String → String} {keys : List String}
    {zones cur newZones : Zones} (hnodup : keys.Nodup)
    (hcur : ∀ key ∈ keys, cur.lookup key = zones.lookup key)
    (h : (renameZones f keys cur newZones).2 = none) :
    (renameZones f keys cur newZones).1
      = rekey f (Option.map (Zone.rename f)) zones keys newZones := by
  induction keys generalizing cur newZones with
  | nil => rfl
  | cons key keys ih =>
    obtain ⟨hnew, hnodup⟩ := List.nodup_cons.mp hnodup
    have hkey := hcur key List.mem_cons_self
    rw [renameZones, hkey] at h ⊢
    rw [rekey]
    cases hlookup : zones.lookup key with
    | none =>
      rw [hlookup] at h
      exact ih hnodup (fun k hk => hcur k (List.mem_cons_of_mem _ hk)) h
    | some zone =>
      simp only [hlookup] at h ⊢
      cases hzone : renameZone f zone with
      | mk zone' failure =>
        simp only [hzone] at h ⊢
        cases failure with
        | some e => exact absurd h (by simp)
        | none =>
          have hcomplete : zone' = zone.map (Zone.rename f) := by
            have hnone : (renameZone f zone).2 = none := by rw [hzone]
            have heq := renameZone_complete hnone
            rw [hzone] at heq
            exact heq
          rw [← hcomplete]
          -- the zone just written back is not visited again, so the rest is still as in `zones`
          refine ih hnodup (fun k hk => ?_) h
          have hne : k ≠ key := fun heq => hnew (heq ▸ hk)
          rw [Finmap.lookup_insert_of_ne cur hne]
          exact hcur k (List.mem_cons_of_mem _ hk)

end Border
