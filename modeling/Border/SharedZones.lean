/-
# The DNS server while the configuration is saved

`Launch` gives the DNS server the map of zones of the configuration, and with it the zones
themselves.  `SaveJSON` and `SaveYAML` call `trimZones`, which takes the final dots off the names
in these zones and then gives the configuration a new map.  The DNS server keeps the old map,
with the old keys and the changed zones.

`Sharing` is the heap with the two maps, and `Sharing.afterSave` what a save makes of it; by
`configZones_afterSave` it is what `save` makes of the configuration.

* `save_undisturbed_iff` : a query gets the same reply before and after a save exactly when the
  save is refused before it trims, no zone matches the name, or what the zone stores for this
  query does not depend on its names (`Zone.Steady`);
* `save_hides_record` : after a save that succeeds, a record is no longer found.
-/
import Border.ConfigRounds
import Border.DnsNames
import Border.LoadSafety
import Border.PointerMap

namespace Border

open Dns GoJson GoMap NetAddr PointerMap

variable {β : Type}

/-! ## Two maps with the same zones -/

/-- The zones of a running node: the objects, and the maps of the configuration and of the DNS
server.  A nil pointer is an address without an object. -/
structure Sharing where
  heap : ℕ → Option Zone
  config : Finmap (fun _ : String => ℕ)
  dns : Finmap (fun _ : String => ℕ)

/-- The zones as the configuration sees them. -/
def Sharing.configZones (s : Sharing) : Zones := deref s.heap s.config

/-- The zones as the DNS server sees them. -/
def Sharing.dnsZones (s : Sharing) : Zones := deref s.heap s.dns

/-- The DNS server has been given the map of the configuration, in which every zone is an object
of its own. -/
structure Sharing.Launched (s : Sharing) (zones : Zones) : Prop where
  shared : s.dns = s.config
  distinct : NoAlias s.config
  view : s.configZones = zones

/-- `Config.trimZones` on the objects. -/
def Sharing.trim (order : RangeOrder String (Option Zone)) (s : Sharing) :
    Sharing × Option Failure :=
  let r := rekeyObjects trimDot (renameZone trimDot) s.config (order.keys s.configZones) s.heap ∅
  ({ s with heap := r.1, config := r.2.1 }, r.2.2)

/-- The trims of a save that has got to a stage. -/
def Stage.trims : Stage β → List ZoneLoop
  | .unsaved => []
  | .trimmed => [.trimJSON]
  | .jsonInPlace _ => [.trimJSON]
  | .yamlTrimmed _ => [.trimJSON, .trimYAML]
  | .saved _ _ => [.trimJSON, .trimYAML]

/-- The trims of a save. -/
def saveTrims (lib : Libraries β) (env : Env) (node : Node β) : List ZoneLoop :=
  match saveStage lib env node with
  | .error stage => stage.trims
  | .ok (json, yaml) => (Stage.saved json yaml).trims

/-- The objects after some trims. -/
def Sharing.trims (env : Env) (s : Sharing) (loops : List ZoneLoop) : Sharing :=
  loops.foldl (fun s loop => (s.trim (env.order loop)).1) s

/-- The objects after a save. -/
def Sharing.afterSave (lib : Libraries β) (env : Env) (node : Node β) (s : Sharing) : Sharing :=
  s.trims env (saveTrims lib env node)

/-! ## What the configuration sees -/

theorem renameZones_eq_rekeyInPlace (f : String → String) (keys : List String)
    (zones newZones : Zones) :
    renameZones f keys zones newZones = rekeyInPlace f (renameZone f) keys zones newZones := by
  induction keys generalizing zones newZones with
  | nil => rfl
  | cons key keys ih =>
    rw [renameZones, rekeyInPlace]
    cases zones.lookup key with
    | none => exact ih zones newZones
    | some zone =>
      dsimp only
      cases renameZone f zone with
      | mk zone' failure =>
        cases failure with
        | some e => rfl
        | none => exact ih _ _

section Trim

variable {s : Sharing}

theorem lookup_ne_of_empty {ks : List String} :
    ∀ k ∈ ks, ∀ a, s.config.lookup k = some a → ∀ l,
      (∅ : Finmap (fun _ : String => ℕ)).lookup l ≠ some a := by
  intro k _ a _ l
  rw [Finmap.lookup_empty]
  simp

/-- **The configuration sees the trim of the model**, and nothing of the sharing. -/
theorem Sharing.trim_configZones (hs : NoAlias s.config) (order : RangeOrder String (Option Zone)) :
    (s.trim order).1.configZones = (trimZones order s.configZones).1 ∧
      (s.trim order).2 = (trimZones order s.configZones).2 := by
  have hloop := deref_rekeyObjects (f := trimDot) (g := renameZone trimDot) hs
    (order.nodup s.configZones) s.heap lookup_ne_of_empty
  have hempty : deref s.heap (∅ : Finmap (fun _ : String => ℕ)) = ∅ := by
    apply Finmap.ext_lookup
    intro k
    rw [lookup_deref, Finmap.lookup_empty, Finmap.lookup_empty]
    rfl
  rw [hempty] at hloop
  unfold trimZones
  rw [renameZones_eq_rekeyInPlace]
  exact hloop

/-- The new map has no more aliases than the old one. -/
theorem noAlias_rekey {f : String → String} {m : Finmap (fun _ : String => ℕ)} (hm : NoAlias m)
    (ks : List String) : NoAlias (rekey f id m ks ∅) := by
  intro k l a hk hl
  obtain ⟨k', a', hk', rfl, rfl⟩ := exists_of_lookup_rekey_empty hk
  obtain ⟨l', b', hl', rfl, hb⟩ := exists_of_lookup_rekey_empty hl
  obtain rfl : b' = a' := hb
  rw [hm k' l' b' hk' hl']

/-- **What a trim that ends does to the objects.** -/
theorem Sharing.trim_objects (hs : NoAlias s.config)
    (hcomplete : ∀ key zone, s.configZones.lookup key = some zone → Complete zone)
    (order : RangeOrder String (Option Zone)) :
    (s.trim order).1.config = rekey trimDot id s.config (order.keys s.configZones) ∅ ∧
      ∀ key a, s.config.lookup key = some a →
        (s.trim order).1.heap a = (s.heap a).map (Zone.rename trimDot) := by
  have hends : (s.trim order).2 = none := by
    rw [(s.trim_configZones hs order).2]
    rcases renameZones_failure trimDot (order.nodup s.configZones) s.configZones ∅ with
      ⟨-, hnone⟩ | ⟨⟨key, -, zone, hzone, hbad⟩, -⟩
    · exact hnone
    · exact absurd (hcomplete key zone hzone) hbad
  obtain ⟨hmap, hmet, -⟩ := rekeyObjects_complete hs (order.nodup s.configZones) hends
  refine ⟨hmap, fun key a ha => ?_⟩
  have hview : s.configZones.lookup key = some (s.heap a) := by
    unfold Sharing.configZones
    rw [lookup_deref, ha]
    rfl
  have hkey : key ∈ order.keys s.configZones :=
    (order.mem_keys _ key).mpr (Finmap.mem_of_lookup_eq_some hview)
  have hzone : (renameZone trimDot (s.heap a)).2 = none := by
    rcases renameZone_failure trimDot (s.heap a) with ⟨-, hnone⟩ | ⟨hbad, -⟩
    · exact hnone
    · exact absurd (hcomplete key _ hview) hbad
  exact (hmet key hkey a ha).trans (renameZone_complete hzone)

end Trim

/-- What is installed at a stage has gone through the trims of the stage. -/
theorem installedAt_zones {env : Env} {node : Node β} {s : Sharing}
    (hs : s.Launched node.config.zones)
    (hcomplete : ∀ key zone, node.config.zones.lookup key = some zone → Complete zone)
    (stage : Stage β) :
    (installedAt env node.installed stage).memory.zones
      = (s.trims env stage.trims).configZones := by
  have hfirst := s.trim_configZones hs.distinct (env.order .trimJSON)
  have hobjects := s.trim_objects hs.distinct (by rw [hs.view]; exact hcomplete)
    (env.order .trimJSON)
  have hdistinct : NoAlias (s.trim (env.order .trimJSON)).1.config := by
    rw [hobjects.1]
    exact noAlias_rekey hs.distinct _
  have hsecond := (s.trim (env.order .trimJSON)).1.trim_configZones hdistinct (env.order .trimYAML)
  rw [hs.view] at hfirst
  rw [hfirst.1] at hsecond
  cases stage with
  | unsaved => exact hs.view.symm
  | trimmed => exact hfirst.1.symm
  | jsonInPlace json => exact hfirst.1.symm
  | yamlTrimmed json => exact hsecond.1.symm
  | saved json yaml => exact hsecond.1.symm

/-- **The model of the objects is that of the save**: whether it succeeds or fails, it leaves the
configuration with the zones that the configuration sees. -/
theorem configZones_afterSave (lib : Libraries β) (env : Env) {node : Node β} {s : Sharing}
    (hs : s.Launched node.config.zones)
    (hcomplete : ∀ key zone, node.config.zones.lookup key = some zone → Complete zone) :
    (finalNode ((save lib env).run node)).config.zones
      = (s.afterSave lib env node).configZones := by
  have hspec := save_spec lib env node
  unfold Sharing.afterSave saveTrims
  cases hstage : saveStage lib env node with
  | error stage =>
    rw [hstage] at hspec
    obtain ⟨e, node', he, hreached⟩ := hspec
    rw [he]
    show node'.config.zones = _
    rw [hreached.config]
    exact installedAt_zones hs hcomplete stage
  | ok docs =>
    obtain ⟨json, yaml⟩ := docs
    rw [hstage] at hspec
    obtain ⟨node', hok, hreached⟩ := hspec
    rw [hok]
    show node'.config.zones = _
    rw [hreached.config]
    exact installedAt_zones hs hcomplete (.saved json yaml)

/-! ## What the DNS server sees -/

section Dns

variable {s : Sharing}

theorem Sharing.Launched.dnsZones_eq {zones : Zones} (hs : s.Launched zones) :
    s.dnsZones = zones := by
  unfold Sharing.dnsZones
  rw [hs.shared]
  exact hs.view

/-- Every zone of the DNS server is one of the configuration. -/
def Sharing.Held (s : Sharing) : Prop :=
  ∀ key a, s.dns.lookup key = some a → ∃ key', s.config.lookup key' = some a

/-- **One trim**: the keys of the DNS server are the old ones, and the names in its zones the new
ones. -/
theorem Sharing.trim_dnsZones (hs : NoAlias s.config) (hheld : s.Held)
    (hcomplete : ∀ key zone, s.configZones.lookup key = some zone → Complete zone)
    (order : RangeOrder String (Option Zone)) (key : String) :
    (s.trim order).1.dnsZones.lookup key
      = (s.dnsZones.lookup key).map (Option.map (Zone.rename trimDot)) := by
  unfold Sharing.dnsZones
  rw [lookup_deref, lookup_deref, Option.map_map]
  show (s.dns.lookup key).map _ = _
  cases ha : s.dns.lookup key with
  | none => rfl
  | some a =>
    obtain ⟨key', ha'⟩ := hheld key a ha
    exact congrArg some ((s.trim_objects hs hcomplete order).2 key' a ha')

/-- After a trim of full names the configuration still holds every zone. -/
theorem Sharing.held_trim (hs : NoAlias s.config) (hheld : s.Held)
    (hcomplete : ∀ key zone, s.configZones.lookup key = some zone → Complete zone)
    (hdots : ∀ key a, s.config.lookup key = some a → HasDot key)
    (order : RangeOrder String (Option Zone)) : (s.trim order).1.Held := by
  intro key a ha
  obtain ⟨key', ha'⟩ := hheld key a ha
  have hvisited : ∀ k, k ∈ order.keys s.configZones ↔ ∃ a, s.config.lookup k = some a := by
    intro k
    rw [order.mem_keys, Finmap.mem_iff]
    unfold Sharing.configZones
    rw [lookup_deref]
    cases s.config.lookup k with
    | none => simp
    | some b => simp
  have hinj : ∀ k ∈ order.keys s.configZones, ∀ l ∈ order.keys s.configZones,
      trimDot k = trimDot l → k = l := by
    intro k hk l hl heq
    obtain ⟨b, hb⟩ := (hvisited k).mp hk
    obtain ⟨b', hb'⟩ := (hvisited l).mp hl
    rw [← trimDot_append_dot (hdots k b hb), heq, trimDot_append_dot (hdots l b' hb')]
  refine ⟨trimDot key', ?_⟩
  rw [(s.trim_objects hs hcomplete order).1]
  exact lookup_rekey hinj ((hvisited key').mpr ⟨a, ha'⟩) ha'

/-- A renamed zone has its pointers. -/
theorem Complete.rename {zone : Option Zone} (h : Complete zone) (f : String → String) :
    Complete (zone.map (Zone.rename f)) := by
  obtain ⟨z, rfl, hsoa, hns, hrecords⟩ := h
  refine ⟨z.rename f, rfl, ?_, ?_, ?_⟩
  · simpa [Zone.rename] using hsoa
  · simpa [Zone.rename] using hns
  · cases hrs : z.records with
    | none => simp [Zone.rename, hrs, Slice.elems]
    | some rs =>
      rw [hrs] at hrecords
      simp only [Zone.rename, hrs, Option.map_some, Slice.elems, Option.getD_some, List.mem_map,
        Option.map_eq_none_iff, exists_eq_right]
      exact hrecords

/-- After a trim every zone is still complete. -/
theorem Sharing.complete_trim (hs : NoAlias s.config)
    (hcomplete : ∀ key zone, s.configZones.lookup key = some zone → Complete zone)
    (order : RangeOrder String (Option Zone)) {key : String} {zone : Option Zone}
    (hzone : (s.trim order).1.configZones.lookup key = some zone) : Complete zone := by
  obtain ⟨hmap, hheap⟩ := s.trim_objects hs hcomplete order
  unfold Sharing.configZones at hzone
  rw [lookup_deref, hmap] at hzone
  obtain ⟨a, ha, rfl⟩ := Option.map_eq_some_iff.mp hzone
  obtain ⟨k, a', ha', -, rfl⟩ := exists_of_lookup_rekey_empty ha
  have hview : s.configZones.lookup k = some (s.heap a') := by
    unfold Sharing.configZones
    rw [lookup_deref, ha']
    rfl
  show Complete ((s.trim order).1.heap a')
  rw [hheap k a' ha']
  exact (hcomplete k _ hview).rename trimDot

/-- **The zones of the DNS server after a save** of zones with full keys: one trim for each time
that the save has called `trimZones`. -/
theorem Sharing.Launched.dnsZones_trims {zones : Zones} (hs : s.Launched zones)
    (hcomplete : ∀ key zone, zones.lookup key = some zone → Complete zone)
    (hdots : ∀ key zone, zones.lookup key = some zone → HasDot key) (env : Env) {stage : Stage β}
    (htrims : stage.trims ≠ []) (key : String) :
    (s.trims env stage.trims).dnsZones.lookup key
      = (zones.lookup key).map (Option.map (Zone.rename trimDot^[stage.trims.length])) := by
  have hheld : s.Held := fun key a ha => ⟨key, hs.shared ▸ ha⟩
  have hcomplete₀ : ∀ key zone, s.configZones.lookup key = some zone → Complete zone := by
    rw [hs.view]
    exact hcomplete
  have hdots₀ : ∀ key a, s.config.lookup key = some a → HasDot key := by
    intro key a ha
    refine hdots key (s.heap a) ?_
    rw [← hs.view]
    unfold Sharing.configZones
    rw [lookup_deref, ha]
    rfl
  have hone := s.trim_dnsZones hs.distinct hheld hcomplete₀ (env.order .trimJSON) key
  rw [hs.dnsZones_eq] at hone
  have hdistinct : NoAlias (s.trim (env.order .trimJSON)).1.config := by
    rw [(s.trim_objects hs.distinct hcomplete₀ (env.order .trimJSON)).1]
    exact noAlias_rekey hs.distinct _
  have htwo := (s.trim (env.order .trimJSON)).1.trim_dnsZones hdistinct
    (s.held_trim hs.distinct hheld hcomplete₀ hdots₀ (env.order .trimJSON))
    (fun key zone hzone => s.complete_trim hs.distinct hcomplete₀ (env.order .trimJSON) hzone)
    (env.order .trimYAML) key
  rw [hone, Option.map_map, Option.map_comp_map] at htwo
  have hrename : Zone.rename trimDot ∘ Zone.rename trimDot = Zone.rename trimDot^[2] :=
    funext fun z => Zone.rename_rename trimDot trimDot z
  rw [hrename] at htwo
  cases stage with
  | unsaved => exact absurd rfl htrims
  | trimmed => exact hone
  | jsonInPlace json => exact hone
  | yamlTrimmed json => exact htwo
  | saved json yaml => exact htwo

end Dns

/-! ## Queries to renamed zones -/

/-- The first record that has the name after a renaming. -/
def Zone.recordRenamed (zone : Zone) (f : String → String) (name : String) : Option Record :=
  (zone.records.elems.filterMap id).find? fun rec => f rec.name = name

/-- The value of a record is of its type. -/
def Record.Typed (rec : Record) : Prop :=
  (rec.type = .a ∧ ∃ a, rec.value = some (.a a)) ∨
    (rec.type = .lb ∧ ∃ lb, rec.value = some (.lb lb))

/-- The addresses of a type in a value, each with the time to live; `none` if there is no value,
or a listener in it does not have an address. -/
def storedValue (qtype : RRType) : Option RecordValue → Option (List (ℕ × IP))
  | none => none
  | some (.a a) => some (if qtype = .a then a.addresses.map fun ip => (a.ttl, ip) else [])
  | some (.lb lb) => (lb.listeners.mapM literalIP).map fun ips =>
      (ips.filter fun ip => addressType ip = qtype).map fun ip => (lb.ttl, ip)

/-- What is stored in a record, if there is one. -/
def stored (qtype : RRType) : Option Record → Option (List (ℕ × IP))
  | none => some []
  | some rec => storedValue qtype rec.value

/-- What a zone stores for a query does not depend on its names, if a renaming changes them all:
the query is for its name servers and it has none, or it is for other data and the record that
has the name stores the same as the one that comes to have it.  An SOA entry has names in it. -/
def Zone.Steady (zone : Zone) (f : String → String) (q : Question) : Prop :=
  match q.qtype with
  | .soa => False
  | .ns => ∀ ns, zone.ns = some ns → ns.servers = []
  | qtype => stored qtype (zone.recordNamed q.name) = stored qtype (zone.recordRenamed f q.name)

section Queries

variable {f : String → String} {zone : Zone} {q : Question}

/-- The closest zone is found by the keys alone. -/
theorem findZone_map {zones zones' : Zones} {g : Zone → Zone}
    (h : ∀ key, zones'.lookup key = (zones.lookup key).map (Option.map g)) (name : String) :
    findZone zones' name = (findZone zones name).map g := by
  unfold findZone
  induction splitDomainName name with
  | nil => rfl
  | cons label labels ih =>
    rw [findSuffix, findSuffix, h]
    cases zones.lookup (String.intercalate "." (label :: labels) ++ ".") with
    | none => exact ih
    | some zone => rfl

theorem elems_rename (f : String → String) (zone : Zone) :
    (zone.rename f).records.elems = zone.records.elems.map (Option.map (Record.rename f)) := by
  unfold Zone.rename
  cases zone.records <;> rfl

theorem recordNamed_rename (f : String → String) (zone : Zone) (name : String) :
    (zone.rename f).recordNamed name = (zone.recordRenamed f name).map (Record.rename f) := by
  have hrecords : ((zone.records.elems.map (Option.map (Record.rename f))).filterMap id)
      = (zone.records.elems.filterMap id).map (Record.rename f) := by
    rw [List.filterMap_map, List.map_filterMap]
    rfl
  unfold Zone.recordNamed Zone.recordRenamed
  rw [elems_rename, hrecords, List.find?_map]
  rfl

theorem stored_rename (f : String → String) (qtype : RRType) (rec : Option Record) :
    stored qtype (rec.map (Record.rename f)) = stored qtype rec := by
  cases rec <;> rfl

/-- The answer with an address. -/
def addressAnswer (name : String) (qtype : RRType) (item : ℕ × IP) : RR :=
  if qtype = .a then .a ⟨name, .a, classINET, item.1⟩ item.2
  else .aaaa ⟨name, .aaaa, classINET, item.1⟩ item.2

theorem addressAnswer_injective (name : String) (qtype : RRType) :
    Function.Injective (addressAnswer name qtype) := by
  intro item item' h
  unfold addressAnswer at h
  by_cases hq : qtype = .a
  · rw [if_pos hq, if_pos hq] at h
    obtain ⟨hhdr, hip⟩ := RR.a.inj h
    exact Prod.ext (RRHeader.mk.inj hhdr).2.2.2 hip
  · rw [if_neg hq, if_neg hq] at h
    obtain ⟨hhdr, hip⟩ := RR.aaaa.inj h
    exact Prod.ext (RRHeader.mk.inj hhdr).2.2.2 hip

/-- Among the records for some addresses, those of a type. -/
theorem filter_addressRR_eq (name : String) (ttl : ℕ) (qtype : RRType) (ips : List IP) :
    (ips.map (addressRR name ttl)).filter (matchesType qtype)
      = ((ips.filter fun ip => addressType ip = qtype).map fun ip => (ttl, ip)).map
        (addressAnswer name qtype) := by
  have hfilter : matchesType qtype ∘ addressRR name ttl
      = fun ip => decide (addressType ip = qtype) := by
    funext ip
    show matchesType qtype (addressRR name ttl ip) = _
    unfold addressRR addressType isIPv4
    cases (to4 ip).isSome
    · rfl
    · rfl
  rw [List.filter_map, hfilter, List.map_map]
  apply List.map_congr_left
  intro ip hip
  obtain rfl : addressType ip = qtype := of_decide_eq_true (List.mem_filter.mp hip).2
  show addressRR name ttl ip = addressAnswer name (addressType ip) (ttl, ip)
  unfold addressRR addressAnswer addressType isIPv4
  cases (to4 ip).isSome
  · rfl
  · rfl

/-- The answers made from a record are those with the addresses that it stores. -/
theorem answerRecord_toOption (name : String) (qtype : RRType) {rec : Record}
    (htyped : rec.Typed) :
    (answerRecord name qtype rec).toOption
      = (storedValue qtype rec.value).map (List.map (addressAnswer name qtype)) := by
  unfold answerRecord
  rcases htyped with ⟨htype, a, hvalue⟩ | ⟨htype, lb, hvalue⟩
  · rw [htype, hvalue]
    dsimp only [storedValue]
    by_cases hq : qtype = .a
    · rw [if_pos hq, if_pos hq, hq, Option.map_some, List.map_map]
      rfl
    · rw [if_neg hq, if_neg hq]
      rfl
  · rw [htype, hvalue]
    show ((lb.convert name).map _).toOption = Option.map _ (Option.map _ _)
    have hspec := convert_spec lb name
    cases hips : lb.listeners.mapM literalIP with
    | none =>
      rw [hips] at hspec
      obtain ⟨msg, hmsg⟩ := hspec
      rw [hmsg]
      rfl
    | some ips =>
      rw [hips] at hspec
      rw [show lb.convert name = _ from hspec]
      exact congrArg some (filter_addressRR_eq name lb.ttl qtype ips)

/-- A query for other data than the SOA and the name servers. -/
theorem answerZone_stored (hrecords : none ∉ zone.records.elems)
    (htyped : ∀ rec, some rec ∈ zone.records.elems → rec.Typed) (hsoa : q.qtype ≠ .soa)
    (hns : q.qtype ≠ .ns) :
    (answerZone zone q).toOption
      = (stored q.qtype (zone.recordNamed q.name)).map
        (List.map (addressAnswer q.name q.qtype)) := by
  have hfound : findRecord q.name zone.records.elems = .ok (zone.recordNamed q.name) := by
    refine (findRecord_eq_ok_iff _ _ _).mpr ⟨fun hmem => hrecords ?_, rfl⟩
    exact (List.takeWhile_sublist _).subset hmem
  rw [answerZone_eq hsoa hns, hfound]
  show (match zone.recordNamed q.name with
    | none => _
    | some rec => _ : Except Failure (List RR)).toOption = _
  cases hnamed : zone.recordNamed q.name with
  | none => rfl
  | some rec =>
    exact answerRecord_toOption q.name q.qtype (htyped rec (mem_of_recordNamed hnamed).1)

theorem steady_record_iff (hsoa : q.qtype ≠ .soa) (hns : q.qtype ≠ .ns) :
    zone.Steady f q ↔
      stored q.qtype (zone.recordNamed q.name) = stored q.qtype (zone.recordRenamed f q.name) := by
  unfold Zone.Steady
  split
  next h => exact absurd h hsoa
  next h => exact absurd h hns
  next => exact Iff.rfl

/-- The SOA entry shows the new name of its zone. -/
theorem answerZone_rename_soa {soa : SOA} (hsoa : zone.soa = some soa)
    (hf : f soa.domain ≠ soa.domain) (hq : q.qtype = .soa) :
    (answerZone (zone.rename f) q).toOption ≠ (answerZone zone q).toOption := by
  have hanswer : ∀ z : Zone, ∀ soa, z.soa = some soa →
      (answerZone z q).toOption = some (soa.convert q.name) := by
    intro z soa hz
    unfold answerZone
    rw [hq]
    simp only [hz]
    rfl
  have hsoa' : (zone.rename f).soa = some (soa.rename f) := by
    unfold Zone.rename
    rw [hsoa]
    rfl
  rw [hanswer zone soa hsoa, hanswer _ _ hsoa']
  intro heq
  rw [Option.some.injEq, SOA.convert, SOA.convert, List.cons.injEq] at heq
  exact hf (RR.soa.inj heq.1).2.1

/-- The NS records show the new names of the servers. -/
theorem answerZone_rename_ns {ns : NS} (hns : zone.ns = some ns)
    (hf : ∀ server ∈ ns.servers, f server ≠ server) (hq : q.qtype = .ns) :
    (answerZone (zone.rename f) q).toOption = (answerZone zone q).toOption ↔ ns.servers = [] := by
  have hanswer : ∀ z : Zone, ∀ ns, z.ns = some ns →
      (answerZone z q).toOption = some (ns.convert q.name) := by
    intro z ns hz
    unfold answerZone
    rw [hq]
    simp only [hz]
    rfl
  have hns' : (zone.rename f).ns = some (ns.rename f) := by
    unfold Zone.rename
    rw [hns]
    rfl
  rw [hanswer zone ns hns, hanswer _ _ hns', Option.some.injEq, NS.convert, NS.convert, NS.rename]
  constructor
  · intro heq
    cases hservers : ns.servers with
    | nil => rfl
    | cons server servers =>
      rw [hservers, List.map_cons, List.map_cons, List.map_cons, List.cons.injEq] at heq
      refine absurd (RR.ns.inj heq.1).2 (hf server ?_)
      rw [hservers]
      exact List.mem_cons_self
  · intro hnil
    rw [hnil]
    rfl

/-- Other answers are those of the record that has the name. -/
theorem answerZone_rename_record (hrecords : none ∉ zone.records.elems)
    (htyped : ∀ rec, some rec ∈ zone.records.elems → rec.Typed) (hsoa : q.qtype ≠ .soa)
    (hns : q.qtype ≠ .ns) :
    (answerZone (zone.rename f) q).toOption = (answerZone zone q).toOption ↔
      stored q.qtype (zone.recordNamed q.name) = stored q.qtype (zone.recordRenamed f q.name) := by
  have hrecords' : none ∉ (zone.rename f).records.elems := by
    rw [elems_rename]
    intro hmem
    obtain ⟨r, hr, hnone⟩ := List.mem_map.mp hmem
    rw [Option.map_eq_none_iff.mp hnone] at hr
    exact hrecords hr
  have htyped' : ∀ rec, some rec ∈ (zone.rename f).records.elems → rec.Typed := by
    rw [elems_rename]
    intro rec hmem
    obtain ⟨r, hr, hsome⟩ := List.mem_map.mp hmem
    obtain ⟨rec', rfl, rfl⟩ := Option.map_eq_some_iff.mp hsome
    exact htyped rec' hr
  have hinj : Function.Injective (Option.map (List.map (addressAnswer q.name q.qtype))) :=
    Option.map_injective (List.map_injective_iff.mpr (addressAnswer_injective q.name q.qtype))
  rw [answerZone_stored hrecords htyped hsoa hns, answerZone_stored hrecords' htyped' hsoa hns,
    recordNamed_rename, stored_rename, hinj.eq_iff]
  exact eq_comm

/-- **Which queries a renaming of all names leaves alone.** -/
theorem answerZone_rename_eq_iff (hcomplete : Complete (some zone))
    (htyped : ∀ rec, some rec ∈ zone.records.elems → rec.Typed)
    (hf : ∀ name ∈ zone.names, f name ≠ name) :
    (answerZone (zone.rename f) q).toOption = (answerZone zone q).toOption ↔ zone.Steady f q := by
  obtain ⟨z, hz, hsome, hsomeNS, hrecords⟩ := hcomplete
  obtain rfl := Option.some.inj hz
  obtain ⟨soa, hsoa⟩ := Option.ne_none_iff_exists'.mp hsome
  obtain ⟨ns, hns⟩ := Option.ne_none_iff_exists'.mp hsomeNS
  by_cases hqsoa : q.qtype = .soa
  · have hsteady : zone.Steady f q ↔ False := by
      unfold Zone.Steady
      rw [hqsoa]
    have hdomain : soa.domain ∈ zone.names := by
      unfold Zone.names
      rw [hsoa]
      exact List.mem_append_left _ (List.mem_append_left _ List.mem_cons_self)
    rw [hsteady, iff_false]
    exact answerZone_rename_soa hsoa (hf _ hdomain) hqsoa
  by_cases hqns : q.qtype = .ns
  · have hsteady : zone.Steady f q ↔ ns.servers = [] := by
      unfold Zone.Steady
      rw [hqns, hns]
      simp
    have hservers : ∀ server ∈ ns.servers, server ∈ zone.names := by
      intro server hserver
      unfold Zone.names
      rw [hns]
      exact List.mem_append_left _ (List.mem_append_right _ hserver)
    rw [hsteady]
    exact answerZone_rename_ns hns (fun server hserver => hf _ (hservers server hserver)) hqns
  rw [steady_record_iff hqsoa hqns]
  exact answerZone_rename_record hrecords htyped hqsoa hqns

/-- The same for zones under their keys. -/
theorem answers_rename_eq_iff {zones zones' : Zones}
    (hlookup : ∀ key, zones'.lookup key = (zones.lookup key).map (Option.map (Zone.rename f)))
    (hcomplete : ∀ key zone, zones.lookup key = some zone → Complete zone)
    (htyped : ∀ key zone, zones.lookup key = some (some zone) →
      ∀ rec, some rec ∈ zone.records.elems → rec.Typed)
    (hf : ∀ key zone, zones.lookup key = some (some zone) → ∀ name ∈ zone.names, f name ≠ name)
    (q : Question) :
    (answers zones' q).toOption = (answers zones q).toOption ↔
      ∀ key zone, Matches zones q.name key zone → zone.Steady f q := by
  unfold answers
  rw [forall_matches_iff, findZone_map hlookup]
  cases hfind : findZone zones q.name with
  | none => exact ⟨fun _ zone hzone => absurd hzone (by simp), fun _ => rfl⟩
  | some zone =>
    obtain ⟨key, suffix, -, -, -, hzone, -⟩ := findZone_eq_some_iff.mp hfind
    simp only [Option.some.injEq, forall_eq']
    exact answerZone_rename_eq_iff (hcomplete key _ hzone) (htyped key zone hzone)
      (hf key zone hzone)

theorem reply_injective : Function.Injective reply := by
  intro rrs rrs' h
  have hanswer := congrArg Dns.Reply.answer h
  rwa [reply_answer, reply_answer] at hanswer

/-- Replies are equal when the answers are. -/
theorem serveDNS_eq_iff (zones zones' : Zones) (q : Question) (more : List Question) :
    (serveDNS zones' (q :: more)).toOption = (serveDNS zones (q :: more)).toOption ↔
      (answers zones' q).toOption = (answers zones q).toOption := by
  have hreply : ∀ x : Except Failure (List RR), (x.map reply).toOption = x.toOption.map reply := by
    intro x
    cases x <;> rfl
  show ((answers zones' q).map reply).toOption = ((answers zones q).map reply).toOption ↔ _
  rw [hreply, hreply, (Option.map_injective reply_injective).eq_iff]

end Queries

/-! ## The main result -/

/-- A name with a dot is another one after any number of trims. -/
theorem trimDot_iterate_ne {name : String} (hdot : HasDot name) {n : ℕ} (hn : 0 < n) :
    trimDot^[n] name ≠ name := by
  have hle : ∀ (n : ℕ) (name : String), (trimDot^[n] name).length ≤ name.length := by
    intro n
    induction n with
    | zero => exact fun name => le_refl _
    | succ n ih =>
      intro name
      rw [Function.iterate_succ_apply]
      refine le_trans (ih _) ?_
      by_cases h : HasDot name
      · have hlen := congrArg String.length (trimDot_append_dot h)
        rw [String.length_append] at hlen
        omega
      · rw [show trimDot name = name from if_neg h]
  obtain ⟨m, rfl⟩ := Nat.exists_eq_succ_of_ne_zero hn.ne'
  intro heq
  have hlen := congrArg String.length (trimDot_append_dot hdot)
  rw [String.length_append, show (".").length = 1 from rfl] at hlen
  have hshort := hle m (trimDot name)
  rw [← Function.iterate_succ_apply, heq] at hshort
  omega

/-- The save gives up before it has changed anything: the prefix is empty or exists, or the
temporary JSON file cannot be created. -/
def SaveRefused (env : Env) (node : Node β) : Prop :=
  node.config.filenamePrefix = "" ∨
    pathExists node.disk node.config.filenamePrefix (env.fault .stat) = true ∨
    (createError node.disk (node.jsonPath ++ ".tmp") (env.fault .createJSON)).isSome = true

theorem fileStage_eq_untouched_iff {disk : String → Option (File β)} {path : String}
    {createFault writeFault renameFault : Option String}
    {order : RangeOrder String (Option Zone)} {encoder : ConfigData → Except String β}
    {d : ConfigData} :
    fileStage disk path createFault writeFault renameFault order encoder d = .untouched ↔
      (createError disk (path ++ ".tmp") createFault).isSome = true := by
  unfold fileStage
  by_cases hcreate : (createError disk (path ++ ".tmp") createFault).isSome = true
  · rw [if_pos hcreate]
    exact ⟨fun _ => hcreate, fun _ => rfl⟩
  · rw [if_neg hcreate]
    refine ⟨fun h => absurd h ?_, fun h => absurd h hcreate⟩
    split
    · simp
    · split <;> simp

theorem saveTrims_eq_nil_iff (lib : Libraries β) (env : Env) (node : Node β) :
    saveTrims lib env node = [] ↔ SaveRefused env node := by
  unfold saveTrims saveStage SaveRefused
  by_cases hbase : node.config.filenamePrefix = "" ∨
      pathExists node.disk node.config.filenamePrefix (env.fault .stat) = true
  · rw [if_pos hbase, ← or_assoc]
    exact ⟨fun _ => Or.inl hbase, fun _ => rfl⟩
  rw [if_neg hbase, ← or_assoc, or_iff_right hbase, ← fileStage_eq_untouched_iff]
  cases fileStage node.disk node.jsonPath (env.fault .createJSON) (env.fault .writeJSON)
      (env.fault .renameJSON) (env.order .trimJSON) lib.encodeJSON node.config.toConfigData with
  | untouched => exact ⟨fun _ => rfl, fun _ => rfl⟩
  | trimmed => simp [Stage.trims]
  | inPlace json =>
    dsimp only
    cases fileStage node.disk node.yamlPath (env.fault .createYAML) (env.fault .writeYAML)
        (env.fault .renameYAML) (env.order .trimYAML) lib.encodeYAML
        (node.config.toConfigData.trim (env.order .trimJSON)) with
    | untouched => simp [Stage.trims]
    | trimmed => simp [Stage.trims]
    | inPlace yaml => simp [Stage.trims]

/-- The trims of a save are those of some stage. -/
theorem exists_stage (lib : Libraries β) (env : Env) (node : Node β) :
    ∃ stage : Stage β, saveTrims lib env node = stage.trims := by
  unfold saveTrims
  cases saveStage lib env node with
  | error stage => exact ⟨stage, rfl⟩
  | ok docs => exact ⟨.saved docs.1 docs.2, rfl⟩

/-- The zones that `FromDisk` leaves have all their pointers. -/
theorem complete_of_fromDisk {lib : Libraries β} {env : Env} {c loaded : Config}
    {filename : String} {loader : β → Except String Config} {file : Option (File β)}
    (h : fromDisk lib env c filename loader file = .ok loaded) {key : String} {zone : Option Zone}
    (hzone : loaded.zones.lookup key = some zone) : Complete zone := by
  obtain ⟨document, newConfig, -, -, hpost⟩ := fromDisk_ok h
  obtain ⟨converted, hconv, hdecor, rfl⟩ := postLoad_ok hpost
  have hzones : (decorateZones (env.order .decorate) converted).1
      = renamed addDot (env.order .decorate) converted := renameZones_eq_renamed hdecor
  have hlookup : (renamed addDot (env.order .decorate) converted).lookup key = some zone := by
    rw [← hzones]
    exact hzone
  obtain ⟨k, zone', hzone', -, rfl⟩ := exists_of_lookup_rekey_empty hlookup
  exact (decorateZones_ok_iff.mp hdecor k zone' hzone').rename addDot

/-- A record that was converted has a value of its type. -/
theorem typed_of_convertRecord {parseDuration : String → Except String ℤ} {soa : Option SOA}
    {rec : Record} (h : convertRecord parseDuration soa rec = .ok rec) : rec.Typed := by
  unfold convertRecord at h
  cases soa with
  | none => cases htype : rec.type <;> rw [htype] at h <;> exact absurd h (by simp)
  | some soa =>
    cases htype : rec.type with
    | other name =>
      rw [htype] at h
      exact absurd h (by simp)
    | a =>
      rw [htype] at h
      obtain ⟨a, -, heq⟩ := map_ok h
      exact Or.inl ⟨htype, a, by rw [← heq]⟩
    | lb =>
      rw [htype] at h
      obtain ⟨lb, -, heq⟩ := map_ok h
      exact Or.inr ⟨htype, lb, by rw [← heq]⟩

theorem Zone.Loaded.typed {parseDuration : String → Except String ℤ} {zone : Zone}
    (h : zone.Loaded parseDuration) {rec : Record} (hrec : some rec ∈ zone.records.elems) :
    rec.Typed := by
  obtain ⟨rec', hrec', hconverted⟩ := h.records _ hrec
  obtain rfl := Option.some.inj hrec'
  exact typed_of_convertRecord hconverted

/-- **When a save leaves the DNS service alone.**  The zones of a node are those of a loaded
configuration, and the DNS server has been launched on them.  Whatever a save comes to, the zones
of the configuration after it are those in the heap, and a message gets the same reply before and
after it (or none both times) exactly when the save is refused before it trims, or the message has
no question, or what the zone that the name of its first question matches, if there is one, stores
for that question does not depend on its names. -/
theorem save_undisturbed_iff {lib : Libraries β} {loadEnv env : Env} {c₀ c : Config}
    {filename : String} {loader : β → Except String Config} {file : Option (File β)}
    (hload : fromDisk lib loadEnv c₀ filename loader file = .ok c) (node : Node β)
    (hnode : node.config.zones = c.zones) {s : Sharing} (hs : s.Launched node.config.zones)
    (questions : List Question) :
    (finalNode ((save lib env).run node)).config.zones = (s.afterSave lib env node).configZones ∧
    ((serveDNS (s.afterSave lib env node).dnsZones questions).toOption
        = (serveDNS s.dnsZones questions).toOption ↔
      SaveRefused env node ∨
        ∀ q ∈ questions.head?, ∀ key zone, Matches node.config.zones q.name key zone →
          zone.Steady trimDot^[(saveTrims lib env node).length] q) := by
  have hloaded : ZonesLoaded lib.parseDuration node.config.zones := by
    rw [hnode]
    exact zonesLoaded_of_fromDisk hload
  have hcomplete : ∀ key zone, node.config.zones.lookup key = some zone → Complete zone := by
    rw [hnode]
    exact fun key zone hzone => complete_of_fromDisk hload hzone
  refine ⟨configZones_afterSave lib env hs hcomplete, ?_⟩
  rw [← saveTrims_eq_nil_iff lib env node, hs.dnsZones_eq]
  by_cases hnil : saveTrims lib env node = []
  · unfold Sharing.afterSave
    rw [hnil]
    refine ⟨fun _ => Or.inl rfl, fun _ => ?_⟩
    show (serveDNS s.dnsZones questions).toOption = _
    rw [hs.dnsZones_eq]
  rw [or_iff_right hnil]
  cases questions with
  | nil => exact ⟨fun _ q hq => absurd hq (by simp), fun _ => rfl⟩
  | cons q more =>
    simp only [List.head?_cons, Option.mem_def, Option.some.injEq, forall_eq']
    rw [serveDNS_eq_iff]
    have hzone : ∀ key zone, node.config.zones.lookup key = some (some zone) →
        zone.Loaded lib.parseDuration := by
      intro key zone hlookup
      obtain ⟨-, z, hz, hzoneLoaded⟩ := hloaded key _ hlookup
      obtain rfl := Option.some.inj hz
      exact hzoneLoaded
    refine answers_rename_eq_iff (fun key => ?_) hcomplete
      (fun key zone hlookup rec hrec => (hzone key zone hlookup).typed hrec)
      (fun key zone hlookup name hname => ?_) q
    · obtain ⟨stage, hstage⟩ := exists_stage lib env node
      unfold Sharing.afterSave
      rw [hstage]
      exact hs.dnsZones_trims hcomplete (fun key zone hlookup => (hloaded key zone hlookup).1) env
        (hstage ▸ hnil) key
    · exact trimDot_iterate_ne ((hzone key zone hlookup).dots name hname)
        (List.length_pos_iff.mpr hnil)

/-! ## A record that is lost -/

/-- A configuration with one zone, as it is loaded. -/
def loadZoned : Except Failure Config :=
  fromDisk plainLibraries calmEnv (Config.new []) "border.yaml" (loadYAML plainLibraries)
    (some (.doc zonedDocument))

/-- A map with one pointer. -/
def testPointer : Finmap (fun _ : String => ℕ) := Finmap.singleton "test." 0

/-- The heap with the zone of a configuration, shared by both maps. -/
def shareZone (c : Config) : Sharing where
  heap _ := (c.zones.lookup "test.").join
  config := testPointer
  dns := testPointer

/-- A query for the record of the zone, and one for a name that has none. -/
def webQuery : Question := ⟨"web.test.", .a⟩

def mailQuery : Question := ⟨"mail.test.", .a⟩

theorem launched_shareZone {c : Config} (hkeys : sortedKeys c.zones = ["test."])
    (hzone : (c.zones.lookup "test.").join ≠ none) : (shareZone c).Launched c.zones := by
  have honly : ∀ k a, testPointer.lookup k = some a → k = "test." := fun k a hk =>
    (Finmap.mem_singleton _ _ _).mp (Finmap.mem_of_lookup_eq_some hk)
  refine ⟨rfl, fun k l a hk hl => (honly k a hk).trans (honly l a hl).symm, ?_⟩
  apply Finmap.ext_lookup
  intro key
  unfold Sharing.configZones
  rw [lookup_deref]
  by_cases hkey : key = "test."
  · subst hkey
    have hpointer : (shareZone c).config.lookup "test." = some 0 := Finmap.lookup_singleton_eq
    rw [hpointer]
    show some (c.zones.lookup "test.").join = _
    cases hlookup : c.zones.lookup "test." with
    | none =>
      rw [hlookup] at hzone
      exact absurd rfl hzone
    | some zone => rfl
  · have hleft : (shareZone c).config.lookup key = none :=
      Finmap.lookup_eq_none.mpr fun hmem => hkey ((Finmap.mem_singleton _ _ _).mp hmem)
    have hright : c.zones.lookup key = none := by
      refine Finmap.lookup_eq_none.mpr fun hmem => hkey ?_
      have hsorted : key ∈ sortedKeys c.zones :=
        ((sortedOrder String (Option Zone)).mem_keys c.zones key).mpr hmem
      rw [hkeys] at hsorted
      exact List.mem_singleton.mp hsorted
    rw [hleft, hright]
    rfl

/-- A node with a configuration, and nothing on its disk. -/
def freshNode (c : Config) : Node ConfigData := ⟨c, fun _ => none⟩

/-- The configuration has the one zone. -/
def oneZone (c : Config) : Bool :=
  decide (sortedKeys c.zones = ["test."]) && (c.zones.lookup "test.").join.isSome

theorem launched_of_oneZone {c : Config} (h : oneZone c = true) :
    (shareZone c).Launched c.zones := by
  obtain ⟨hkeys, hzone⟩ := Bool.and_eq_true_iff.mp h
  exact launched_shareZone (of_decide_eq_true hkeys) (Option.isSome_iff_ne_none.mp hzone)

/-- The query for the name without a record gets the same reply after a save. -/
theorem save_undisturbed_mail :
    ∃ c, loadZoned = .ok c ∧ (shareZone c).Launched c.zones ∧
      (serveDNS ((shareZone c).afterSave plainLibraries calmEnv (freshNode c)).dnsZones
          [mailQuery]).toOption
        = (serveDNS (shareZone c).dnsZones [mailQuery]).toOption := by
  have heval : okWith (fun c => oneZone c && (findZone c.zones mailQuery.name).all fun zone =>
      (zone.recordNamed mailQuery.name).isNone && (zone.recordRenamed
        trimDot^[(saveTrims plainLibraries calmEnv (freshNode c)).length] mailQuery.name).isNone)
      loadZoned = true := by
    decide +kernel
  obtain ⟨c, hload, htest⟩ := okWith_eq_true heval
  obtain ⟨hone, hfind⟩ := Bool.and_eq_true_iff.mp htest
  have hlaunched := launched_of_oneZone hone
  refine ⟨c, hload, hlaunched, ?_⟩
  refine (save_undisturbed_iff hload (freshNode c) rfl hlaunched [mailQuery]).2.mpr
    (Or.inr ?_)
  rintro q hq key zone hmatch
  obtain rfl : mailQuery = q := Option.some.inj hq
  have hzone : findZone c.zones mailQuery.name = some zone :=
    findZone_eq_some_iff.mpr ⟨key, hmatch⟩
  rw [hzone] at hfind
  obtain ⟨hnamed, hrenamed⟩ := Bool.and_eq_true_iff.mp hfind
  show stored _ (zone.recordNamed mailQuery.name) = stored _ _
  rw [Option.isNone_iff_eq_none.mp hnamed, Option.isNone_iff_eq_none.mp hrenamed]

/-- **A record is hidden.**  The query for `web.test.` is answered with the address of the record
before a save, and with a name error after it, although the save has succeeded. -/
theorem save_hides_record :
    ∃ c node' before after, loadZoned = .ok c ∧ (shareZone c).Launched c.zones ∧
      (save plainLibraries calmEnv).run (freshNode c) = .ok () node' ∧
      serveDNS (shareZone c).dnsZones [webQuery] = .ok before ∧
      before.rcode = .success ∧ before.answer.length = 1 ∧
      serveDNS ((shareZone c).afterSave plainLibraries calmEnv (freshNode c)).dnsZones [webQuery]
        = .ok after ∧
      after.rcode = .nameError ∧ after.answer = [] := by
  have heval : okWith (fun c => oneZone c &&
      (runOkWith (fun _ => true) ((save plainLibraries calmEnv).run (freshNode c)) &&
        (okWith (fun before => decide (before.rcode = .success ∧ before.answer.length = 1))
          (serveDNS (shareZone c).dnsZones [webQuery]) &&
        okWith (fun after => decide (after.rcode = .nameError ∧ after.answer = []))
          (serveDNS ((shareZone c).afterSave plainLibraries calmEnv (freshNode c)).dnsZones
            [webQuery])))) loadZoned = true := by
    decide +kernel
  obtain ⟨c, hload, htest⟩ := okWith_eq_true heval
  obtain ⟨hone, htest⟩ := Bool.and_eq_true_iff.mp htest
  obtain ⟨hsaved, hreplies⟩ := Bool.and_eq_true_iff.mp htest
  obtain ⟨hanswered, hrefused⟩ := Bool.and_eq_true_iff.mp hreplies
  obtain ⟨_, node', hsave, -⟩ := runOkWith_eq_true hsaved
  obtain ⟨before, hbefore, hfound⟩ := okWith_eq_true hanswered
  obtain ⟨after, hafter, hlost⟩ := okWith_eq_true hrefused
  obtain ⟨hsuccess, hlength⟩ := of_decide_eq_true hfound
  exact ⟨c, node', before, after, hload, launched_of_oneZone hone, hsave, hbefore, hsuccess,
    hlength, hafter, of_decide_eq_true hlost⟩

end Border
