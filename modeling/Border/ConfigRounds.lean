/-
# Saving and reloading a loaded configuration

A configuration that comes from `FromDisk` has a dot at the end of every name, a TTL in
every NS entry, and in every record the value its literal parses to.  `Save` takes one dot
off every name in memory, twice, and `Reload` reads back what was written after the first
time.

`rounds_identity` : any number of such rounds, each with map orders of its own, leaves the
configuration as it was loaded, provided that no name ends in two dots.
-/
import Border.ConfigSync

namespace Border

open GoJson GoMap Transition

variable {β : Type}

/-! ## The names in a configuration -/

/-- The names a zone holds. -/
def Zone.names (z : Zone) : List String :=
  (z.soa.elim [] fun soa => [soa.domain, soa.admin]) ++ z.ns.elim [] NS.servers ++
    z.records.elems.filterMap (Option.map Record.name)

theorem recordNames_rename (f : String → String) (rs : List (Option Record)) :
    (rs.map (Option.map (Record.rename f))).filterMap (Option.map Record.name)
      = (rs.filterMap (Option.map Record.name)).map f := by
  rw [List.filterMap_map, List.map_filterMap]
  apply List.filterMap_congr
  intro r _
  cases r <;> rfl

theorem Zone.names_rename (f : String → String) (z : Zone) :
    (z.rename f).names = z.names.map f := by
  obtain ⟨soa, ns, records⟩ := z
  have hrecords : Slice.elems (records.map (List.map (Option.map (Record.rename f))))
      = records.elems.map (Option.map (Record.rename f)) := by
    cases records <;> rfl
  unfold Zone.names Zone.rename
  rw [hrecords, recordNames_rename, List.map_append, List.map_append]
  cases soa <;> cases ns <;> rfl

theorem Zone.rename_rename (f g : String → String) (z : Zone) :
    (z.rename f).rename g = z.rename (g ∘ f) := by
  obtain ⟨soa, ns, records⟩ := z
  unfold Zone.rename
  congr 1
  · cases soa <;> rfl
  · cases ns with
    | none => rfl
    | some ns => simp [NS.rename]
  · cases records with
    | none => rfl
    | some rs =>
      simp only [Option.map_some, List.map_map, Option.some.injEq]
      apply List.map_congr_left
      intro r _
      cases r <;> rfl

/-- Every key and every name has the property. -/
def ZonesNames (P : String → Prop) (zones : Zones) : Prop :=
  ∀ key zone, zones.lookup key = some zone → P key ∧ ∀ z, zone = some z → ∀ name ∈ z.names, P name

theorem zonesNames_iff {P : String → Prop} {zones : Zones} (order : RangeOrder String (Option Zone)) :
    ZonesNames P zones ↔ ∀ key ∈ order.keys zones, P key ∧
      ∀ z ∈ (zones.lookup key).join, ∀ name ∈ z.names, P name := by
  constructor
  · intro h key hkey
    obtain ⟨zone, hzone⟩ := Finmap.mem_iff.mp ((order.mem_keys zones key).mp hkey)
    obtain ⟨hP, hnames⟩ := h key zone hzone
    refine ⟨hP, fun z hz => hnames z ?_⟩
    rw [hzone] at hz
    exact hz
  · intro h key zone hzone
    have hmem : key ∈ order.keys zones :=
      (order.mem_keys zones key).mpr (Finmap.mem_of_lookup_eq_some hzone)
    obtain ⟨hP, hnames⟩ := h key hmem
    refine ⟨hP, fun z hz => hnames z ?_⟩
    rw [hzone, hz]
    rfl

instance {P : String → Prop} [DecidablePred P] (zones : Zones) : Decidable (ZonesNames P zones) :=
  decidable_of_iff _ (zonesNames_iff (sortedOrder String (Option Zone))).symm

/-- No empty label stands before the final dot: what is left without that dot does not end in
a dot itself. -/
def NoEmptyLabel (name : String) : Prop := ¬ HasDot (trimDot name)

instance (name : String) : Decidable (NoEmptyLabel name) :=
  inferInstanceAs (Decidable (¬ HasDot (trimDot name)))

/-- The part of being settled that is about names. -/
theorem settled_of_names {z : Zone} (hnames : ∀ name ∈ z.names, Dotted name)
    (httl : ∀ ns, z.ns = some ns → ns.ttl = 0 → z.minTTL = 0) : z.Settled := by
  refine ⟨fun soa hsoa => ?_, fun ns hns server hserver => ?_, httl, fun r hr => ?_⟩
  · have hmem : ∀ name ∈ [soa.domain, soa.admin], Dotted name := by
      intro name hname
      apply hnames
      unfold Zone.names
      rw [hsoa]
      exact List.mem_append_left _ (List.mem_append_left _ hname)
    exact ⟨hmem _ (by simp), hmem _ (by simp)⟩
  · apply hnames
    unfold Zone.names
    rw [hns]
    exact List.mem_append_left _ (List.mem_append_right _ hserver)
  · apply hnames
    exact List.mem_append_right _ (List.mem_filterMap.mpr ⟨some r, hr, rfl⟩)

/-! ## Records that hold what their literals parse to -/

section Fresh

variable {parseDuration : String → Except String ℤ}

theorem recordError_eq_ok {α : Type} {name : String} {x : Except Failure α} {a : α} :
    recordError name x = .ok a ↔ x = .ok a := by
  match x with
  | .ok b => exact Iff.rfl
  | .error (.error e) => simp [recordError]
  | .error (.panic e) => simp [recordError]
  | .error (.exit e) => simp [recordError]

/-- The value a record has plays no part in its conversion. -/
theorem convertRecord_exported (soa : Option SOA) (r : Record) :
    convertRecord parseDuration soa r.exported = convertRecord parseDuration soa r := by
  obtain ⟨type, name, literal, value⟩ := r
  cases type <;> cases soa <;> rfl

/-- Converting a converted record again changes nothing. -/
theorem convertRecord_again {soa : Option SOA} {r r' : Record}
    (h : convertRecord parseDuration soa r = .ok r') :
    convertRecord parseDuration soa r' = .ok r' := by
  rw [← convertRecord_exported, convertRecord_export h, convertRecord_exported, h]

/-- Nor do names play a part in it. -/
theorem convertRecord_rename {soa : Option SOA} {r r' : Record}
    (h : convertRecord parseDuration soa r = .ok r') (f : String → String) :
    convertRecord parseDuration (soa.map (SOA.rename f)) (r.rename f) = .ok (r'.rename f) := by
  obtain ⟨type, name, literal, value⟩ := r
  cases soa with
  | none =>
    cases type with
    | a => exact absurd h (by simp [convertRecord])
    | lb => exact absurd h (by simp [convertRecord])
    | other type => exact absurd h (by simp [convertRecord])
  | some soa =>
    cases type with
    | other type => exact absurd h (by simp [convertRecord])
    | a =>
      obtain ⟨a, ha, rfl⟩ := map_ok h
      have hparse : recordError (f name) (parseA parseDuration (literal.getD [])
          ⟨[], soa.minTTL, []⟩) = .ok a := recordError_eq_ok.mpr (recordError_eq_ok.mp ha)
      exact congrArg (Except.map _) hparse
    | lb =>
      obtain ⟨lb, hlb, rfl⟩ := map_ok h
      have hparse : recordError (f name) (parseLB parseDuration (literal.getD []) _) = .ok lb :=
        recordError_eq_ok.mpr (recordError_eq_ok.mp hlb)
      exact congrArg (Except.map _) hparse

/-- Two records that hold what their literals parse to are equal when what is saved of them
is. -/
theorem records_eq_of_exported {soa : Option SOA} {rs rs' : List (Option Record)}
    (hexported : rs.map (Option.map Record.exported) = rs'.map (Option.map Record.exported))
    (h : ∀ r ∈ rs, ∃ rec, r = some rec ∧ convertRecord parseDuration soa rec = .ok rec)
    (h' : ∀ r ∈ rs', ∃ rec, r = some rec ∧ convertRecord parseDuration soa rec = .ok rec) :
    rs = rs' := by
  induction rs generalizing rs' with
  | nil => exact (List.map_eq_nil_iff.mp hexported.symm).symm
  | cons r rs ih =>
    cases rs' with
    | nil => exact absurd hexported (by simp)
    | cons r' rs' =>
      rw [List.map_cons, List.map_cons, List.cons.injEq] at hexported
      obtain ⟨rec, rfl, hrec⟩ := h r List.mem_cons_self
      obtain ⟨rec', rfl, hrec'⟩ := h' r' List.mem_cons_self
      have hsaved : rec.exported = rec'.exported := Option.some.inj hexported.1
      rw [← convertRecord_exported, hsaved, convertRecord_exported, hrec'] at hrec
      rw [Except.ok.inj hrec, ih hexported.2 (fun r hr => h r (List.mem_cons_of_mem _ hr))
        fun r hr => h' r (List.mem_cons_of_mem _ hr)]

end Fresh

/-! ## What a load leaves -/

/-- A zone as a load leaves it. -/
structure Zone.Loaded (parseDuration : String → Except String ℤ) (z : Zone) : Prop where
  dots : ∀ name ∈ z.names, HasDot name
  ttl : ∀ ns, z.ns = some ns → ns.ttl = 0 → z.minTTL = 0
  records : ∀ r ∈ z.records.elems, ∃ rec, r = some rec ∧
    convertRecord parseDuration z.soa rec = .ok rec

/-- The zones as a load leaves them. -/
def ZonesLoaded (parseDuration : String → Except String ℤ) (zones : Zones) : Prop :=
  ∀ key zone, zones.lookup key = some zone →
    HasDot key ∧ ∃ z, zone = some z ∧ z.Loaded parseDuration

section Load

variable {parseDuration : String → Except String ℤ}

/-- A zone that was converted and then decorated. -/
theorem loaded_of_convertZone {zone zone' : Option Zone}
    (h : convertZone parseDuration zone = .ok zone') :
    ∃ z', zone' = some z' ∧ (z'.rename addDot).Loaded parseDuration := by
  obtain ⟨z, ns, ns', records, rfl, hns, hdefault, hrecords, rfl⟩ := convertZone_ok h
  refine ⟨_, rfl, fun name hname => ?_, fun ns₁ hns₁ hzero => ?_, fun r hr => ?_⟩
  · rw [Zone.names_rename] at hname
    obtain ⟨name', -, rfl⟩ := List.mem_map.mp hname
    exact hasDot_addDot name'
  · obtain rfl : ns'.rename addDot = ns₁ := Option.some.inj hns₁
    have hmin : Zone.minTTL (Zone.rename addDot { z with
        ns := some ns', records := z.records.map fun _ => records })
        = (z.soa.map SOA.minTTL).getD 0 := by
      unfold Zone.minTTL Zone.rename
      cases z.soa <;> rfl
    rw [hmin]
    have httl : ns'.ttl = 0 := hzero
    rw [defaultTTL_eq hdefault] at httl
    unfold NS.withDefaultTTL at httl
    split_ifs at httl with hns0
    · exact httl
    · exact absurd httl hns0
  · cases hrs : z.records with
    | none =>
      simp only [Zone.rename, hrs] at hr
      exact absurd hr List.not_mem_nil
    | some rs =>
      simp only [Zone.rename, hrs, Option.map_some] at hr
      obtain ⟨r', hr', rfl⟩ := List.mem_map.mp (show r ∈ records.map _ from hr)
      obtain ⟨rec, rec', rfl, hrec⟩ := exists_of_convertRecords hrecords hr'
      exact ⟨rec'.rename addDot, rfl, convertRecord_rename (convertRecord_again hrec) addDot⟩

theorem zonesLoaded_of_convert {order order' : RangeOrder String (Option Zone)}
    {zones converted : Zones} (hconv : convertLiterals parseDuration order zones = .ok converted) :
    ZonesLoaded parseDuration (renamed addDot order' converted) := by
  intro key zone hzone
  obtain ⟨k, zone', hlookup, rfl, rfl⟩ := exists_of_lookup_rekey_empty hzone
  obtain ⟨zone₀, -, hconverted⟩ := lookup_convertLiterals hconv hlookup
  obtain ⟨z', rfl, hloaded⟩ := loaded_of_convertZone hconverted
  exact ⟨hasDot_addDot k, _, rfl, hloaded⟩

/-- **What `FromDisk` leaves.** -/
theorem zonesLoaded_of_fromDisk {lib : Libraries β} {env : Env} {c loaded : Config}
    {filename : String} {loader : β → Except String Config} {file : Option (File β)}
    (h : fromDisk lib env c filename loader file = .ok loaded) :
    ZonesLoaded lib.parseDuration loaded.zones := by
  obtain ⟨document, newConfig, -, -, hpost⟩ := fromDisk_ok h
  obtain ⟨converted, hconv, hdecor, rfl⟩ := postLoad_ok hpost
  show ZonesLoaded lib.parseDuration (decorateZones (env.order .decorate) converted).1
  rw [show (decorateZones (env.order .decorate) converted).1
      = renamed addDot (env.order .decorate) converted from renameZones_eq_renamed hdecor]
  exact zonesLoaded_of_convert hconv

/-- Loaded zones with no empty label before a final dot survive a save and a load. -/
theorem ZonesLoaded.settled {zones : Zones} (h : ZonesLoaded parseDuration zones)
    (hlabels : ZonesNames NoEmptyLabel zones) : ZonesSettled zones := by
  intro key zone hzone
  obtain ⟨hdot, z, rfl, hloaded⟩ := h key zone hzone
  obtain ⟨hkey, hnames⟩ := hlabels key _ hzone
  refine ⟨⟨hdot, hkey⟩, fun z' hz' => ?_⟩
  obtain rfl := Option.some.inj hz'
  exact settled_of_names (fun name hname => ⟨hloaded.dots name hname, hnames z rfl name hname⟩)
    hloaded.ttl

/-- **Loaded zones that agree in what is saved are equal**, the values of their records
included. -/
theorem ZonesLoaded.eq_of_agree {zones zones' : Zones} (h : ZonesLoaded parseDuration zones)
    (h' : ZonesLoaded parseDuration zones') (hagree : ZonesAgree zones zones') :
    zones = zones' := by
  apply Finmap.ext_lookup
  intro key
  have hkey := hagree key
  unfold exportedAt at hkey
  cases hlookup : zones.lookup key with
  | none =>
    rw [hlookup] at hkey
    exact (Option.map_eq_none_iff.mp hkey.symm).symm
  | some zone =>
    obtain ⟨-, z, rfl, hloaded⟩ := h key zone hlookup
    rw [hlookup] at hkey
    obtain ⟨zone', hlookup', hexported⟩ := Option.map_eq_some_iff.mp hkey.symm
    obtain ⟨-, z', rfl, hloaded'⟩ := h' key zone' hlookup'
    rw [hlookup']
    have hz : z'.exported = z.exported := Option.some.inj hexported
    obtain ⟨soa, ns, records⟩ := z
    obtain ⟨soa', ns', records'⟩ := z'
    obtain ⟨rfl, rfl, hrecords⟩ := Zone.mk.inj hz
    -- both hold what their literals parse to, under one SOA entry
    have heq : records = records' := by
      cases records with
      | none => exact (Option.map_eq_none_iff.mp hrecords).symm
      | some rs =>
        obtain ⟨rs', rfl, hrs⟩ := Option.map_eq_some_iff.mp hrecords
        exact congrArg some (records_eq_of_exported hrs.symm hloaded.records hloaded'.records)
    rw [heq]

end Load

/-! ## Rounds -/

/-- `Save` followed by `Reload`. -/
def saveAndReload (lib : Libraries β) (env : Env) : Prog β Unit := do
  save lib env
  reload lib env

/-- One round that succeeds. -/
def roundStep (lib : Libraries β) (node : Node β) (env : Env) : Option (Node β) :=
  match (saveAndReload lib env).run node with
  | .ok _ node' => some node'
  | .error _ _ => none

section Rounds

variable {lib : Libraries β} {D : Domain} {env : Env} {node node' : Node β}

theorem roundStep_ok (h : roundStep lib node env = some node') :
    (saveConfig lib env).run node = .ok () node' := by
  unfold roundStep at h
  cases hrun : (saveAndReload lib env).run node with
  | error e node₁ =>
    rw [hrun] at h
    exact absurd h (by simp)
  | ok u node₁ =>
    rw [hrun] at h
    obtain rfl := Option.some.inj h
    obtain ⟨_, node₂, hsave, hreload⟩ := run_bind_ok hrun
    exact (bind_eq_of_ok (wrapError_of_ok hsave)).trans (wrapError_of_ok hreload)

/-- **One round** leaves a loaded configuration as it is. -/
theorem roundStep_config (hlib : RoundTrips lib D) (hin : node.config.toConfigData.In D)
    (h : roundStep lib node env = some node')
    (hloaded : ZonesLoaded lib.parseDuration node.config.zones)
    (hlabels : ZonesNames NoEmptyLabel node.config.zones) :
    node'.config = { node.config with reload := true } := by
  have hsave := roundStep_ok h
  obtain ⟨json, yaml, loaded, hsaved⟩ := saveConfig_ok hsave
  -- a save and a load is a replacement of the configuration by itself
  have hreplace : (replaceConfig lib env (some node.config) node.config.chain).run node
      = .ok () node' := hsave
  have hself : node.config.toConfigData.Agrees node.config.toConfigData :=
    ⟨rfl, rfl, rfl, rfl, fun _ => rfl⟩
  have hagrees := (replaceConfig_agrees hlib hin hself hreplace).2.mpr (hloaded.settled hlabels)
  rw [hsaved.config] at hagrees ⊢
  have hzones : loaded.zones = node.config.zones :=
    (zonesLoaded_of_fromDisk hsaved.load).eq_of_agree hloaded hagrees.zones
  have hdata : loaded.toConfigData = node.config.toConfigData := by
    have hwait : loaded.shutdownWait = node.config.shutdownWait := hagrees.shutdownWait
    have hkey : loaded.authKey = node.config.authKey := hagrees.authKey
    have hlisten : loaded.listen = node.config.listen := hagrees.listen
    have hpeers : loaded.peers = node.config.peers := hagrees.peers
    obtain ⟨⟨wait, key, listen, peers, zones⟩, _, _, _, _⟩ := loaded
    obtain rfl := hwait
    obtain rfl := hkey
    obtain rfl := hlisten
    obtain rfl := hpeers
    obtain rfl := hzones
    rfl
  rw [hdata]

/-- **Saving and reloading is the identity on a loaded configuration.**  After any number of
rounds, each with orders of its own for the loops over the zones, every field of the
configuration is what it was, the values of the records included; only a signal has come
into the reload channel.  And every record holds what its literal parses to.  The configuration is
in a class that `encoding/json` reads back. -/
theorem rounds_identity (hlib : RoundTrips lib D) {c₀ c : Config} {loadEnv : Env}
    {filename : String} {loader : β → Except String Config} {file : Option (File β)}
    (hload : fromDisk lib loadEnv c₀ filename loader file = .ok c) (hin : c.toConfigData.In D)
    (hlabels : ZonesNames NoEmptyLabel c.zones)
    (hnode : node.config.toConfigData = c.toConfigData) {envs : List Env}
    (hrun : run (roundStep lib) node envs = some node') :
    (∃ signal, node'.config = { node.config with reload := signal }) ∧
    ∀ key z, node'.config.zones.lookup key = some (some z) → ∀ rec, some rec ∈ z.records.elems →
      convertRecord lib.parseDuration z.soa rec = .ok rec := by
  have hloaded : ZonesLoaded lib.parseDuration c.zones := zonesLoaded_of_fromDisk hload
  have hstart : c.zones = node.config.zones := by
    rw [show node.config.zones = node.config.toConfigData.zones from rfl, hnode]
  rw [hstart] at hloaded hlabels
  have hconfig : ∃ signal, node'.config = { node.config with reload := signal } := by
    refine run_invariant (P := fun n => ∃ signal, n.config = { node.config with reload := signal })
      ?_ ⟨node.config.reload, rfl⟩ hrun
    rintro n env n' ⟨signal, hn⟩ hstep
    have hzones : n.config.zones = node.config.zones := by rw [hn]
    have hdata : n.config.toConfigData.In D := by
      rw [hn, hnode]
      exact hin
    refine ⟨true, ?_⟩
    rw [roundStep_config hlib hdata hstep (hzones ▸ hloaded) (hzones ▸ hlabels), hn]
  refine ⟨hconfig, fun key z hz rec hrec => ?_⟩
  obtain ⟨signal, hsame⟩ := hconfig
  have hzones : node'.config.zones = node.config.zones := by rw [hsame]
  rw [hzones] at hz
  obtain ⟨-, z', hz', hzone⟩ := hloaded key _ hz
  obtain rfl := Option.some.inj hz'
  obtain ⟨rec', hrec', hfresh⟩ := hzone.records _ hrec
  obtain rfl := Option.some.inj hrec'
  exact hfresh

end Rounds

/-! ## A zone with one record -/

/-- A document with a zone, its names without dots as on disk, and an A record. -/
def zonedDocument : ConfigData :=
  { onePeerNode.config.toConfigData with
    zones := Finmap.singleton "test" (some {
      soa := some ⟨"test", "admin.test", 60, 1, 60, 1, 120⟩
      ns := some ⟨["ns.test"], 0⟩
      records := some [some ⟨.a, "web.test", some [("addresses", .arr [.str "10.0.0.1"])], none⟩] }) }

theorem rounds_identity_zoned :
    ∃ c node', fromDisk plainLibraries calmEnv (Config.new []) "border.yaml"
        (loadYAML plainLibraries) (some (.doc zonedDocument)) = .ok c ∧
      run (roundStep plainLibraries) ⟨c, fun _ => none⟩ [calmEnv] = some node' ∧
      ∃ signal, node'.config = { c with reload := signal } := by
  have hrun : okWith (fun c => decide (ZonesNames NoEmptyLabel c.zones) &&
      (run (roundStep plainLibraries) ⟨c, fun _ => none⟩ [calmEnv]).isSome)
      (fromDisk plainLibraries calmEnv (Config.new []) "border.yaml" (loadYAML plainLibraries)
        (some (.doc zonedDocument))) = true := by
    decide +kernel
  obtain ⟨c, hload, htest⟩ := okWith_eq_true hrun
  obtain ⟨hlabels, hsome⟩ := Bool.and_eq_true_iff.mp htest
  obtain ⟨node', hnode'⟩ := Option.isSome_iff_exists.mp hsome
  exact ⟨c, node', hload, hnode', (rounds_identity roundTrips_plainLibraries hload
    (ConfigData.in_all _) (of_decide_eq_true hlabels) rfl hnode').1⟩

end Border
