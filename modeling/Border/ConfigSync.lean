/-
# Does a sync make the subscriber agree with the publisher?

A subscriber whose chain has another sum than the publisher's fetches the publisher's
configuration and calls `ReplaceConfig`.  What it ends up with has gone through JSON,
`trimZones`, the JSON file, `convertLiterals` and `decorateZones`.

`encoding/json` does not read back every value of the types: an address of four bytes comes back
with sixteen, and a number beyond the range of its field not at all.  So that a document is read
back is asked of a class of configurations only, a `Domain`, which saving and loading do not leave.

* `zonesAgree_iff` : that way leaves the zones as they are exactly when every name ends in
  one dot and no NS entry waits for its default TTL (`Settled`);
* `sync_agrees_iff` : after a successful sync the two agree, and the next round is quiet,
  exactly when the zones are settled and the chains were equal before, since
  `ReplaceConfig` gives the new chain to a configuration that is then dropped.
-/
import Border.ConfigUpdate

namespace Border

open GoMap

variable {β : Type}

/-! ## Agreement -/

/-- What a map of zones holds under a key, as it is saved. -/
def exportedAt (zones : Zones) (key : String) : Option (Option Zone) :=
  (zones.lookup key).map (Option.map Zone.exported)

/-- Equal in everything that is saved. -/
def ZonesAgree (zones zones' : Zones) : Prop :=
  ∀ key, exportedAt zones key = exportedAt zones' key

/-- Equal in the five fields that are saved. -/
structure ConfigData.Agrees (d d' : ConfigData) : Prop where
  shutdownWait : d.shutdownWait = d'.shutdownWait
  authKey : d.authKey = d'.authKey
  listen : d.listen = d'.listen
  peers : d.peers = d'.peers
  zones : ZonesAgree d.zones d'.zones

theorem mem_iff_exportedAt {zones : Zones} {key : String} :
    key ∈ zones ↔ exportedAt zones key ≠ none := by
  rw [← Finmap.lookup_isSome, exportedAt]
  cases zones.lookup key <;> simp

theorem ZonesAgree.mem_iff {zones zones' : Zones} (h : ZonesAgree zones zones') {key : String} :
    key ∈ zones ↔ key ∈ zones' := by
  rw [mem_iff_exportedAt, mem_iff_exportedAt, h key]

/-! ## Renaming and saving commute -/

theorem Zone.rename_exported (f : String → String) (z : Zone) :
    (z.rename f).exported = z.exported.rename f := by
  unfold Zone.rename Zone.exported
  cases z.records with
  | none => rfl
  | some rs =>
    simp only [Option.map_some, List.map_map, Zone.mk.injEq, true_and, Option.some.injEq]
    apply List.map_congr_left
    intro r _
    cases r <;> rfl

/-- A zone after a save and a load. -/
def Zone.reloaded (z : Zone) : Zone := ((z.rename trimDot).withDefaultTTL).rename addDot

/-- Every name of a zone ends in one dot, and its NS entry does not wait for its default
TTL. -/
structure Zone.Settled (z : Zone) : Prop where
  soa : ∀ soa, z.soa = some soa → Dotted soa.domain ∧ Dotted soa.admin
  servers : ∀ ns, z.ns = some ns → ∀ server ∈ ns.servers, Dotted server
  ttl : ∀ ns, z.ns = some ns → ns.ttl = 0 → z.minTTL = 0
  records : ∀ r, some r ∈ z.records.elems → Dotted r.name

theorem map_reloaded_eq_iff (names : List String) :
    (names.map trimDot).map addDot = names ↔ ∀ name ∈ names, Dotted name := by
  rw [List.map_map]
  nth_rewrite 2 [← List.map_id names]
  rw [List.map_inj_left]
  apply forall₂_congr
  intro name _
  exact (dotted_iff name).symm

theorem records_reloaded_eq_iff (rs : List (Option Record)) :
    (rs.map (Option.map (Record.rename trimDot))).map (Option.map (Record.rename addDot)) = rs ↔
      ∀ r, some r ∈ rs → Dotted r.name := by
  rw [List.map_map]
  nth_rewrite 2 [← List.map_id rs]
  rw [List.map_inj_left]
  constructor
  · intro h r hr
    have heq : r.rename (addDot ∘ trimDot) = r := Option.some.inj (h (some r) hr)
    exact (dotted_iff r.name).mpr (congrArg Record.name heq)
  · intro h r hr
    cases r with
    | none => rfl
    | some r =>
      have heq := (dotted_iff r.name).mp (h r hr)
      show some { r with name := addDot (trimDot r.name) } = some r
      rw [heq]

theorem soa_reloaded_eq_iff (soa : SOA) :
    (soa.rename trimDot).rename addDot = soa ↔ Dotted soa.domain ∧ Dotted soa.admin := by
  rw [dotted_iff, dotted_iff]
  constructor
  · intro h
    exact ⟨congrArg SOA.domain h, congrArg SOA.admin h⟩
  · rintro ⟨hdomain, hadmin⟩
    show { soa with domain := addDot (trimDot soa.domain), admin := addDot (trimDot soa.admin) }
      = soa
    rw [hdomain, hadmin]

theorem ns_reloaded_eq_iff (minTTL : ℕ) (ns : NS) :
    ((ns.rename trimDot).withDefaultTTL minTTL).rename addDot = ns ↔
      (∀ server ∈ ns.servers, Dotted server) ∧ (ns.ttl = 0 → minTTL = 0) := by
  rw [← map_reloaded_eq_iff]
  by_cases hzero : ns.ttl = 0
  · have hnew : (ns.rename trimDot).withDefaultTTL minTTL
        = { ns.rename trimDot with ttl := minTTL } := if_pos hzero
    rw [hnew]
    constructor
    · intro h
      have httl : minTTL = ns.ttl := congrArg NS.ttl h
      exact ⟨congrArg NS.servers h, fun _ => httl.trans hzero⟩
    · rintro ⟨hservers, httl⟩
      show (⟨(ns.servers.map trimDot).map addDot, minTTL⟩ : NS) = ns
      rw [hservers, httl hzero, ← hzero]
  · have hnew : (ns.rename trimDot).withDefaultTTL minTTL = ns.rename trimDot := if_neg hzero
    rw [hnew]
    constructor
    · intro h
      exact ⟨congrArg NS.servers h, fun h0 => absurd h0 hzero⟩
    · rintro ⟨hservers, -⟩
      show (⟨(ns.servers.map trimDot).map addDot, ns.ttl⟩ : NS) = ns
      rw [hservers]

/-- **Which zones survive a save and a load.** -/
theorem reloaded_eq_iff (z : Zone) : z.reloaded = z ↔ z.Settled := by
  have hmin : (z.rename trimDot).minTTL = z.minTTL := by
    unfold Zone.minTTL Zone.rename
    cases z.soa <;> rfl
  have hns_eq : z.reloaded.ns
      = ((z.ns.map (NS.rename trimDot)).map (NS.withDefaultTTL z.minTTL)).map
        (NS.rename addDot) := by
    rw [← hmin]
    rfl
  rw [Zone.ext_iff, hns_eq]
  constructor
  · rintro ⟨hsoa, hns, hrecords⟩
    refine ⟨fun soa hs => ?_, fun ns hs => ?_, fun ns hs => ?_, fun r hr => ?_⟩
    · simp only [Zone.reloaded, Zone.rename, Zone.withDefaultTTL, hs] at hsoa
      exact (soa_reloaded_eq_iff soa).mp (Option.some.inj hsoa)
    · rw [hs] at hns
      exact ((ns_reloaded_eq_iff z.minTTL ns).mp (Option.some.inj hns)).1
    · rw [hs] at hns
      exact ((ns_reloaded_eq_iff z.minTTL ns).mp (Option.some.inj hns)).2
    · cases hs : z.records with
      | none =>
        rw [hs] at hr
        exact absurd hr List.not_mem_nil
      | some rs =>
        simp only [Zone.reloaded, Zone.rename, Zone.withDefaultTTL, hs] at hrecords
        rw [hs] at hr
        exact (records_reloaded_eq_iff rs).mp (Option.some.inj hrecords) r hr
  · rintro ⟨hsoa, hservers, httl, hrecords⟩
    refine ⟨?_, ?_, ?_⟩
    · simp only [Zone.reloaded, Zone.rename, Zone.withDefaultTTL]
      cases hs : z.soa with
      | none => rfl
      | some soa => exact congrArg some ((soa_reloaded_eq_iff soa).mpr (hsoa soa hs))
    · cases hs : z.ns with
      | none => rfl
      | some ns =>
        exact congrArg some ((ns_reloaded_eq_iff z.minTTL ns).mpr ⟨hservers ns hs, httl ns hs⟩)
    · simp only [Zone.reloaded, Zone.rename, Zone.withDefaultTTL]
      cases hs : z.records with
      | none => rfl
      | some rs =>
        rw [hs] at hrecords
        exact congrArg some ((records_reloaded_eq_iff rs).mpr hrecords)

/-- Values converted from literals play no part in it. -/
theorem settled_exported (z : Zone) : z.exported.Settled ↔ z.Settled := by
  have hrecords : (∀ r, some r ∈ z.exported.records.elems → Dotted r.name) ↔
      ∀ r, some r ∈ z.records.elems → Dotted r.name := by
    unfold Zone.exported
    cases z.records with
    | none => exact Iff.rfl
    | some rs =>
      simp only [Option.map_some, GoJson.Slice.elems, Option.getD_some, List.mem_map]
      constructor
      · intro h r hr
        exact h r.exported ⟨some r, hr, rfl⟩
      · rintro h r ⟨r', hr', heq⟩
        obtain ⟨r'', rfl, rfl⟩ := Option.map_eq_some_iff.mp heq
        exact h r'' hr'
  constructor
  · rintro ⟨h1, h2, h3, h4⟩
    exact ⟨h1, h2, h3, hrecords.mp h4⟩
  · rintro ⟨h1, h2, h3, h4⟩
    exact ⟨h1, h2, h3, hrecords.mpr h4⟩

/-! ## The zones as a whole -/

/-- Every key and every zone is settled. -/
def ZonesSettled (zones : Zones) : Prop :=
  ∀ key zone, zones.lookup key = some zone → Dotted key ∧ ∀ z, zone = some z → z.Settled

/-- The map a complete renaming loop builds. -/
def renamed (f : String → String) (order : RangeOrder String (Option Zone)) (zones : Zones) :
    Zones :=
  rekey f (Option.map (Zone.rename f)) zones (order.keys zones) ∅

/-- A renaming loop that ran to its end. -/
theorem renameZones_eq_renamed {f : String → String} {order : RangeOrder String (Option Zone)}
    {zones : Zones} (h : (renameZones f (order.keys zones) zones ∅).2 = none) :
    (renameZones f (order.keys zones) zones ∅).1 = renamed f order zones :=
  renameZones_complete (order.nodup zones) (fun _ _ => rfl) h

theorem mem_renamed {f : String → String} {order : RangeOrder String (Option Zone)}
    {zones : Zones} {key' : String} :
    key' ∈ renamed f order zones ↔ ∃ key ∈ zones, f key = key' := by
  unfold renamed
  rw [mem_rekey]
  constructor
  · rintro (hnil | ⟨key, -, hmem, heq⟩)
    · exact absurd hnil Finmap.notMem_empty
    · exact ⟨key, hmem, heq⟩
  · rintro ⟨key, hmem, heq⟩
    exact Or.inr ⟨key, (order.mem_keys zones key).mpr hmem, hmem, heq⟩

/-- Without collisions a renamed zone stands under the renamed key. -/
theorem exportedAt_renamed {f : String → String} (order : RangeOrder String (Option Zone))
    {zones : Zones} (hinj : ∀ k ∈ zones, ∀ l ∈ zones, f k = f l → k = l) {key : String}
    (hkey : key ∈ zones) :
    exportedAt (renamed f order zones) (f key)
      = (exportedAt zones key).map (Option.map (Zone.rename f)) := by
  obtain ⟨zone, hzone⟩ := Finmap.mem_iff.mp hkey
  have hinj' : ∀ k ∈ order.keys zones, ∀ l ∈ order.keys zones, f k = f l → k = l := by
    intro k hk l hl
    exact hinj k ((order.mem_keys zones k).mp hk) l ((order.mem_keys zones l).mp hl)
  have hlookup : (renamed f order zones).lookup (f key) = some (zone.map (Zone.rename f)) :=
    lookup_rekey hinj' ((order.mem_keys zones key).mpr hkey) hzone
  unfold exportedAt
  rw [hlookup, hzone]
  cases zone with
  | none => rfl
  | some z =>
    simp only [Option.map_some]
    rw [Zone.rename_exported]

theorem exportedAt_converted {parseDuration : String → Except String ℤ}
    {order : RangeOrder String (Option Zone)} {zones zones' : Zones}
    (h : convertLiterals parseDuration order zones = .ok zones') (key : String) :
    exportedAt zones' key = (exportedAt zones key).map (Option.map Zone.withDefaultTTL) := by
  unfold exportedAt
  rw [convertLiterals_export h key, Option.map_map]
  cases zones.lookup key with
  | none => rfl
  | some zone => cases zone <;> rfl

/-! ## Classes of configurations -/

/-- A class of configurations, given by their parts.  What is not saved of a zone plays no part in
it, and neither dots at the ends of names nor a default TTL lead out of it. -/
structure Domain where
  /-- The wait at a shutdown and the key of the clients. -/
  settings : ℤ → Option JSONWebKey → Prop
  peer : Peer → Prop
  zone : Zone → Prop
  exported : ∀ {z z' : Zone}, z'.exported = z.exported → zone z → zone z'
  trim : ∀ {z : Zone}, zone z → zone (z.rename trimDot)
  decorate : ∀ {z : Zone}, zone z → zone (z.rename addDot)
  complete : ∀ {z : Zone}, zone z → zone z.withDefaultTTL

/-- All configurations. -/
def Domain.all : Domain where
  settings _ _ := True
  peer _ := True
  zone _ := True
  exported _ _ := trivial
  trim _ := trivial
  decorate _ := trivial
  complete _ := trivial

/-- Every zone of the map is in the class. -/
def ZonesIn (D : Domain) (zones : Zones) : Prop :=
  ∀ key z, zones.lookup key = some (some z) → D.zone z

/-- Every part of a configuration is in the class. -/
structure ConfigData.In (D : Domain) (d : ConfigData) : Prop where
  settings : D.settings d.shutdownWait d.authKey
  peers : ∀ p, some p ∈ d.peers.elems → D.peer p
  zones : ZonesIn D d.zones

/-- On the class, the JSON encoding gives back the saved fields. -/
def RoundTrips (lib : Libraries β) (D : Domain) : Prop :=
  ∀ d document, d.In D → lib.encodeJSON d = .ok document →
    ∃ d', lib.decodeJSON document = .ok d' ∧ d'.Agrees d

theorem ConfigData.in_all (d : ConfigData) : d.In Domain.all :=
  ⟨trivial, fun _ _ => trivial, fun _ _ _ => trivial⟩

section Domain

variable {D : Domain} {zones zones' : Zones} {d d' : ConfigData}

theorem ZonesIn.agree (h : ZonesIn D zones) (hagree : ZonesAgree zones' zones) :
    ZonesIn D zones' := by
  intro key z' hz'
  have hkey := hagree key
  unfold exportedAt at hkey
  rw [hz'] at hkey
  obtain ⟨zone, hzone, hexported⟩ := Option.map_eq_some_iff.mp hkey.symm
  obtain ⟨z, rfl, hz⟩ := Option.map_eq_some_iff.mp hexported
  exact D.exported hz.symm (h key z hzone)

theorem ZonesIn.renamed {f : String → String} (h : ZonesIn D zones)
    (hf : ∀ {z : Zone}, D.zone z → D.zone (z.rename f))
    (order : RangeOrder String (Option Zone)) : ZonesIn D (renamed f order zones) := by
  intro key z hz
  obtain ⟨k, zone, hlookup, -, heq⟩ := exists_of_lookup_rekey_empty hz
  obtain ⟨z', rfl, rfl⟩ := Option.map_eq_some_iff.mp heq
  exact hf (h k z' hlookup)

theorem ZonesIn.converted {parseDuration : String → Except String ℤ}
    {order : RangeOrder String (Option Zone)} (h : ZonesIn D zones)
    (hconvert : convertLiterals parseDuration order zones = .ok zones') : ZonesIn D zones' := by
  intro key z' hz'
  obtain ⟨zone, hzone, hconverted⟩ := lookup_convertLiterals hconvert hz'
  obtain ⟨z, rfl, hexported⟩ := Option.map_eq_some_iff.mp (convertZone_export hconverted).symm
  exact D.exported hexported.symm (D.complete (h key z hzone))

theorem ConfigData.In.of_agrees (h : d.In D) (hagrees : d'.Agrees d) : d'.In D := by
  refine ⟨?_, ?_, h.zones.agree hagrees.zones⟩
  · rw [hagrees.shutdownWait, hagrees.authKey]
    exact h.settings
  · rw [hagrees.peers]
    exact h.peers

/-- Other zones in a configuration of the class. -/
theorem ConfigData.In.withZones (h : d.In D) (hzones : ZonesIn D zones) :
    ConfigData.In D { d with zones := zones } :=
  ⟨h.settings, h.peers, hzones⟩

/-- Other peers in a configuration of the class. -/
theorem ConfigData.In.withPeers (h : d.In D) {peers : GoJson.Slice (Option Peer)}
    (hpeers : ∀ p, some p ∈ peers.elems → D.peer p) :
    ConfigData.In D { d with peers := peers } :=
  ⟨h.settings, hpeers, h.zones⟩

/-- What is encoded of a configuration of the class is in it. -/
theorem ConfigData.In.trim (h : d.In D) {order : RangeOrder String (Option Zone)}
    (htrim : (trimZones order d.zones).2 = none) : (d.trim order).In D := by
  have hzones : (trimZones order d.zones).1 = renamed trimDot order d.zones :=
    renameZones_eq_renamed htrim
  unfold ConfigData.trim
  rw [hzones]
  exact h.withZones (h.zones.renamed D.trim order)

end Domain

/-- The way of a map of zones through a save and a load, up to the decoration. -/
structure Passage (p saved decoded converted : Zones) (env : Env) : Prop where
  fetch : ZonesAgree saved p
  decode : ZonesAgree decoded (renamed trimDot (env.order .trimJSON) saved)
  convert : ∃ parseDuration,
    convertLiterals parseDuration (env.order .convert) decoded = .ok converted

section Passage

variable {p saved decoded converted : Zones} {env : Env}

theorem Passage.mem_converted (h : Passage p saved decoded converted env) {key : String} :
    key ∈ converted ↔ ∃ k ∈ p, trimDot k = key := by
  obtain ⟨parseDuration, hconv⟩ := h.convert
  have hmem : key ∈ converted ↔ key ∈ decoded := by
    rw [mem_iff_exportedAt, mem_iff_exportedAt, exportedAt_converted hconv]
    cases exportedAt decoded key <;> simp
  rw [hmem, h.decode.mem_iff, mem_renamed]
  simp only [h.fetch.mem_iff]

/-- Which keys come out at the end. -/
theorem Passage.mem_iff (h : Passage p saved decoded converted env) {key : String} :
    key ∈ renamed addDot (env.order .decorate) converted ↔
      ∃ k ∈ p, addDot (trimDot k) = key := by
  rw [mem_renamed]
  constructor
  · rintro ⟨k, hk, rfl⟩
    obtain ⟨k', hk', rfl⟩ := h.mem_converted.mp hk
    exact ⟨k', hk', rfl⟩
  · rintro ⟨k, hk, rfl⟩
    exact ⟨trimDot k, h.mem_converted.mpr ⟨k, hk, rfl⟩, rfl⟩

/-- What comes out under a key when every key has one dot. -/
theorem Passage.exportedAt_eq (h : Passage p saved decoded converted env)
    (hdot : ∀ key ∈ p, Dotted key) {key : String} (hkey : key ∈ p) :
    exportedAt (renamed addDot (env.order .decorate) converted) key
      = (exportedAt p key).map (Option.map Zone.reloaded) := by
  obtain ⟨parseDuration, hconv⟩ := h.convert
  have hfix : ∀ k ∈ p, addDot (trimDot k) = k := fun k hk => (dotted_iff k).mp (hdot k hk)
  -- no two keys meet, neither when they are trimmed nor when they are decorated again
  have htrim : ∀ k ∈ saved, ∀ l ∈ saved, trimDot k = trimDot l → k = l := by
    intro k hk l hl heq
    rw [← hfix k (h.fetch.mem_iff.mp hk), heq, hfix l (h.fetch.mem_iff.mp hl)]
  have hadd : ∀ k ∈ converted, ∀ l ∈ converted, addDot k = addDot l → k = l := by
    intro k hk l hl heq
    obtain ⟨k', hk', rfl⟩ := h.mem_converted.mp hk
    obtain ⟨l', hl', rfl⟩ := h.mem_converted.mp hl
    rw [hfix k' hk', hfix l' hl'] at heq
    rw [heq]
  have hout := exportedAt_renamed (env.order .decorate) hadd
    (h.mem_converted.mpr ⟨key, hkey, rfl⟩)
  rw [hfix key hkey] at hout
  rw [hout, exportedAt_converted hconv, h.decode,
    exportedAt_renamed _ htrim (h.fetch.mem_iff.mpr hkey), h.fetch, Option.map_map, Option.map_map,
    Option.map_comp_map, Option.map_comp_map]
  rfl

end Passage

/-- Only names with one dot are left where they are. -/
theorem dotted_of_keys {p : Zones}
    (h : ∀ key, key ∈ p ↔ ∃ k ∈ p, addDot (trimDot k) = key) {key : String} (hkey : key ∈ p) :
    Dotted key := by
  have himage : p.keys.image (fun k => addDot (trimDot k)) = p.keys := by
    ext k
    rw [Finset.mem_image, Finmap.mem_keys, h k]
    simp only [Finmap.mem_keys]
  have hsize : ∀ k ∈ p.keys, addDot (trimDot k) ≠ k →
      (addDot (trimDot k)).length < k.length := by
    intro k hk hne
    obtain ⟨k', -, hk'⟩ := (h k).mp (Finmap.mem_keys.mp hk)
    have hdot : HasDot k := by
      rw [← hk']
      exact hasDot_addDot _
    have hcat := trimDot_append_dot hdot
    -- a key that is moved has two dots at its end, and loses one
    have htwo : HasDot (trimDot k) := by
      by_contra hnot
      exact hne ((dotted_iff k).mp ⟨hdot, hnot⟩)
    rw [addDot, if_pos htwo]
    have hlen := congrArg String.length hcat
    rw [String.length_append] at hlen
    have hone : (".").length = 1 := rfl
    omega
  -- the map permutes the keys and shrinks those it moves, so it moves none
  rw [dotted_iff]
  exact fixed_of_image_eq himage hsize (Finmap.mem_keys.mpr hkey)

/-- **Which zones survive a save and a load as a whole.** -/
theorem zonesAgree_iff {p saved decoded converted : Zones} {env : Env}
    (h : Passage p saved decoded converted env) :
    ZonesAgree (renamed addDot (env.order .decorate) converted) p ↔ ZonesSettled p := by
  constructor
  · intro hagree
    have hdot : ∀ key ∈ p, Dotted key := fun key hkey =>
      dotted_of_keys (fun k => hagree.mem_iff.symm.trans h.mem_iff) hkey
    intro key zone hzone
    have hkey : key ∈ p := Finmap.mem_of_lookup_eq_some hzone
    refine ⟨hdot key hkey, ?_⟩
    rintro z rfl
    -- only now that no two keys meet is it known what comes out under the key
    have heq := (h.exportedAt_eq hdot hkey).symm.trans (hagree key)
    unfold exportedAt at heq
    rw [hzone] at heq
    have hz : z.exported.reloaded = z.exported := Option.some.inj (Option.some.inj heq)
    exact (settled_exported z).mp ((reloaded_eq_iff _).mp hz)
  · intro hsettled key
    have hdot : ∀ key ∈ p, Dotted key := by
      intro key hkey
      obtain ⟨zone, hzone⟩ := Finmap.mem_iff.mp hkey
      exact (hsettled key zone hzone).1
    by_cases hkey : key ∈ p
    · rw [h.exportedAt_eq hdot hkey]
      obtain ⟨zone, hzone⟩ := Finmap.mem_iff.mp hkey
      unfold exportedAt
      rw [hzone]
      cases zone with
      | none => rfl
      | some z =>
        have hz := (settled_exported z).mpr ((hsettled key _ hzone).2 z rfl)
        simp only [Option.map_some]
        rw [(reloaded_eq_iff _).mpr hz]
    · have hout : key ∉ renamed addDot (env.order .decorate) converted := by
        intro hmem
        obtain ⟨k, hk, heq⟩ := h.mem_iff.mp hmem
        rw [(dotted_iff k).mp (hdot k hk)] at heq
        exact hkey (heq ▸ hk)
      have h1 := not_not.mp (mt mem_iff_exportedAt.mpr hout)
      have h2 := not_not.mp (mt mem_iff_exportedAt.mpr hkey)
      rw [h1, h2]

/-! ## A round of `monitorConfig` -/

/-- What the subscriber decodes from the publisher's `ConfigFetchResponse`. -/
def fetchConfig (lib : Libraries β) (publisher : Config) : Except String Config := do
  let document ← lib.encodeJSON publisher.toConfigData
  let data ← lib.decodeJSON document
  .ok { Config.new [] with toConfigData := data }

/-- One round of `monitorConfig` against a publisher that answers.  `sum` is the sum of a
chain and `lastMatch` whether the second chain is an ancestor of the first; errors are
logged and end the round. -/
def monitorRound (sum : List String → String) (lastMatch : List String → List String → Bool)
    (lib : Libraries β) (env : Env) (publisher : Config) : Prog β Unit := fun node =>
  if sum node.config.chain = sum publisher.chain then .ok () node
  else if lastMatch publisher.chain node.config.chain = false then .ok () node
  else
    match fetchConfig lib publisher with
    | .error _ => .ok () node
    | .ok newConfig =>
      match (replaceConfig lib env (some newConfig) publisher.chain).run node with
      | .error (.error _) node' => .ok () node'
      | r => r

section Sync

variable {lib : Libraries β} {D : Domain} {env : Env}

theorem fetchConfig_agrees (hlib : RoundTrips lib D) {publisher newConfig : Config}
    (hin : publisher.toConfigData.In D) (h : fetchConfig lib publisher = .ok newConfig) :
    newConfig.toConfigData.Agrees publisher.toConfigData := by
  unfold fetchConfig at h
  cases henc : lib.encodeJSON publisher.toConfigData with
  | error e =>
    rw [henc] at h
    exact absurd h (by simp [bind, Except.bind])
  | ok document =>
    obtain ⟨data, hdec, hagrees⟩ := hlib _ _ hin henc
    simp only [henc, hdec, bind, Except.bind] at h
    rw [← Except.ok.inj h]
    exact hagrees

/-- What is loaded from a document. -/
theorem fromDisk_document_ok {c loaded : Config} {filename : String}
    {loader : β → Except String Config} {document : β}
    (h : fromDisk lib env c filename loader (some (.doc document)) = .ok loaded) :
    ∃ newConfig converted, loader document = .ok newConfig ∧
      convertLiterals lib.parseDuration (env.order .convert) newConfig.zones = .ok converted ∧
      (decorateZones (env.order .decorate) converted).2 = none ∧
      loaded.toConfigData =
        { newConfig.toConfigData with zones := (decorateZones (env.order .decorate) converted).1 } := by
  obtain ⟨document', newConfig, hfile, hloader, hpost⟩ := fromDisk_ok h
  obtain rfl := File.doc.inj (Option.some.inj hfile)
  obtain ⟨converted, hconv, hdecor, rfl⟩ := postLoad_ok hpost
  exact ⟨newConfig, converted, hloader, hconv, hdecor, rfl⟩

/-- What is loaded from a JSON document. -/
theorem fromDisk_json_ok {c loaded : Config} {filename : String} {json : β}
    (h : fromDisk lib env c filename (loadJSON lib) (some (.doc json)) = .ok loaded) :
    ∃ data converted, lib.decodeJSON json = .ok data ∧
      convertLiterals lib.parseDuration (env.order .convert) data.zones = .ok converted ∧
      (decorateZones (env.order .decorate) converted).2 = none ∧
      loaded.toConfigData =
        { data with zones := (decorateZones (env.order .decorate) converted).1 } := by
  obtain ⟨newConfig, converted, hloader, hconv, hdecor, hloaded⟩ := fromDisk_document_ok h
  unfold loadJSON at hloader
  cases hdec : lib.decodeJSON json with
  | error e =>
    rw [hdec] at hloader
    exact absurd hloader (by simp [Except.map])
  | ok data =>
    rw [hdec] at hloader
    obtain rfl := Except.ok.inj hloader
    exact ⟨data, converted, rfl, hconv, hdecor, hloaded⟩

/-- What is loaded from a JSON document of the class is in it. -/
theorem in_fromDisk_json {c loaded : Config} {filename : String} {json : β} {data : ConfigData}
    (hdecode : lib.decodeJSON json = .ok data) (hdata : data.In D)
    (h : fromDisk lib env c filename (loadJSON lib) (some (.doc json)) = .ok loaded) :
    loaded.toConfigData.In D := by
  obtain ⟨data', converted, hdecode', hconvert, hdecorate, hloaded⟩ := fromDisk_json_ok h
  obtain rfl := Except.ok.inj (hdecode.symm.trans hdecode')
  have hzones : (decorateZones (env.order .decorate) converted).1
      = renamed addDot (env.order .decorate) converted := renameZones_eq_renamed hdecorate
  rw [hloaded, hzones]
  exact hdata.withZones ((hdata.zones.converted hconvert).renamed D.decorate _)

/-- **What a successful sync leaves.**  The chain is the subscriber's own, and the
configuration agrees with the publisher's exactly when its zones are settled. -/
theorem replaceConfig_agrees (hlib : RoundTrips lib D) {node node' : Node β}
    {publisher newConfig : Config} {newChain : List String}
    (hin : publisher.toConfigData.In D)
    (hagrees : newConfig.toConfigData.Agrees publisher.toConfigData)
    (h : (replaceConfig lib env (some newConfig) newChain).run node = .ok () node') :
    node'.config.chain = node.config.chain ∧
      (node'.config.toConfigData.Agrees publisher.toConfigData ↔
        ZonesSettled publisher.zones) := by
  obtain ⟨d, hd, hsave⟩ := update_ok (u := .replace (some newConfig) newChain) h
  obtain rfl := Except.ok.inj hd
  obtain ⟨json, yaml, loaded, hsaved⟩ := saveConfig_ok hsave
  obtain ⟨htrim, henc⟩ := saveStage_ok hsaved.stage
  obtain ⟨data', hdec', hround⟩ := hlib _ _ ((hin.of_agrees hagrees).trim htrim) henc
  obtain ⟨data, converted, hdec, hconv, hdecor, hloaded⟩ := fromDisk_json_ok hsaved.load
  obtain rfl := Except.ok.inj (hdec'.symm.trans hdec)
  have hzones : (decorateZones (env.order .decorate) converted).1
      = renamed addDot (env.order .decorate) converted :=
    renameZones_eq_renamed hdecor
  have htrimmed : (trimZones (env.order .trimJSON) newConfig.zones).1
      = renamed trimDot (env.order .trimJSON) newConfig.zones :=
    renameZones_eq_renamed htrim
  -- memory, JSON file, decoded document and converted zones, in the order they are made
  have hpassage : Passage publisher.zones newConfig.zones data'.zones converted env := by
    refine ⟨hagrees.zones, ?_, _, hconv⟩
    rw [← htrimmed]
    exact hround.zones
  refine ⟨by rw [hsaved.config]; rfl, ?_⟩
  have hconfig : node'.config.toConfigData
      = { data' with zones := renamed addDot (env.order .decorate) converted } := by
    rw [hsaved.config, ← hzones]
    exact hloaded
  rw [hconfig, ← zonesAgree_iff hpassage]
  constructor
  · exact fun hall => hall.zones
  · intro hz
    exact ⟨hround.shutdownWait.trans hagrees.shutdownWait, hround.authKey.trans hagrees.authKey,
      hround.listen.trans hagrees.listen, hround.peers.trans hagrees.peers, hz⟩

/-- **When a sync brings agreement.**  Let the publisher's configuration be in a class that
`encoding/json` reads back.  After a successful `ReplaceConfig` with what was fetched, the
subscriber has the publisher's chain and configuration, and the next round against the same
publisher finds equal sums and does nothing, exactly when the two had equal chains already and the
publisher's zones are settled. -/
theorem sync_agrees_iff (hlib : RoundTrips lib D) {node node' : Node β}
    {publisher newConfig : Config} (hin : publisher.toConfigData.In D)
    (hfetch : fetchConfig lib publisher = .ok newConfig)
    (h : (replaceConfig lib env (some newConfig) publisher.chain).run node = .ok () node') :
    (node'.config.chain = publisher.chain ∧
      node'.config.toConfigData.Agrees publisher.toConfigData ∧
      ∀ sum lastMatch env', sum node'.config.chain = sum publisher.chain ∧
        (monitorRound sum lastMatch lib env' publisher).run node' = .ok () node') ↔
    node.config.chain = publisher.chain ∧ ZonesSettled publisher.zones := by
  obtain ⟨hchain, hiff⟩ := replaceConfig_agrees hlib hin (fetchConfig_agrees hlib hin hfetch) h
  rw [← hchain, ← hiff]
  constructor
  · rintro ⟨h1, h2, -⟩
    exact ⟨h1, h2⟩
  · rintro ⟨h1, h2⟩
    refine ⟨h1, h2, fun sum lastMatch env' => ?_⟩
    -- equal sums end the round at its first test
    have hsum : sum node'.config.chain = sum publisher.chain := by rw [h1]
    refine ⟨hsum, ?_⟩
    simp only [EStateM.run, monitorRound, hsum, if_true]

end Sync

/-! ## A subscriber and a publisher with one peer -/

theorem roundTrips_plainLibraries : RoundTrips plainLibraries Domain.all := by
  intro d document _ h
  obtain rfl := Except.ok.inj h
  exact ⟨d, rfl, rfl, rfl, rfl, rfl, fun _ => rfl⟩

theorem zonesSettled_empty : ZonesSettled ∅ := by
  intro key zone h
  rw [Finmap.lookup_empty] at h
  exact absurd h (by simp)

theorem run_onePeer_sync :
    ∃ newConfig node', fetchConfig plainLibraries onePeerNode.config = .ok newConfig ∧
      (replaceConfig plainLibraries calmEnv (some newConfig) onePeerNode.config.chain).run
        onePeerNode = .ok () node' :=
  ⟨_, _, rfl, rfl⟩

theorem sync_agrees_onePeer :
    ∃ newConfig node', fetchConfig plainLibraries onePeerNode.config = .ok newConfig ∧
      (replaceConfig plainLibraries calmEnv (some newConfig) onePeerNode.config.chain).run
        onePeerNode = .ok () node' ∧
      node'.config.chain = onePeerNode.config.chain ∧
      node'.config.toConfigData.Agrees onePeerNode.config.toConfigData := by
  obtain ⟨newConfig, node', hfetch, hrun⟩ := run_onePeer_sync
  have hsync := (sync_agrees_iff roundTrips_plainLibraries (ConfigData.in_all _) hfetch hrun).mpr
    ⟨rfl, zonesSettled_empty⟩
  exact ⟨newConfig, node', hfetch, hrun, hsync.1, hsync.2.1⟩

/-- The same configuration, one generation ahead. -/
def publishedConfig : Config := { onePeerNode.config with chain := ["gen1"] }

/-- A completed sync with a publisher that is one generation ahead: the subscriber's chain
is still empty, so the next round finds different sums again. -/
theorem sync_drops_chain :
    RoundTrips plainLibraries Domain.all ∧
    ∃ newConfig node', fetchConfig plainLibraries publishedConfig = .ok newConfig ∧
      (replaceConfig plainLibraries calmEnv (some newConfig) publishedConfig.chain).run
        onePeerNode = .ok () node' ∧
      node'.config.chain = [] ∧ publishedConfig.chain = ["gen1"] ∧
      String.join node'.config.chain ≠ String.join publishedConfig.chain :=
  ⟨roundTrips_plainLibraries, _, _, rfl, rfl, rfl, rfl, by decide⟩

end Border
