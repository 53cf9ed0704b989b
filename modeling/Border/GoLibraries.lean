/-
# Configurations on disk, byte by byte

The results on saving and loading take `encoding/json` and `ghodss/yaml` as `Libraries`, and some
of them ask that what is encoded is decoded again.  Here the JSON half of these libraries is the
one of `ConfigDocument`, on bytes; what remains of `ghodss/yaml` (`YamlCodec`) is the way between a
YAML text and a JSON document.

A Go map has no order, so a literal is taken in the order of its keys when it is decoded.  What is
decoded is then `Portable`: within the ranges of its types, with addresses and keys that can be
written, and with literals in that order.  Converting and renaming keep this.

* `roundTrips_goLibraries`, `roundTripsYAML_goLibraries`, `readsJSON_goLibraries` : portable data is
  decoded from its own text, in everything that is saved;
* `saved_exact` : so saving and loading back a configuration that agrees with loaded zones gives
  exactly these zones;
* `json_file_stable` : a node that saves and reloads writes the same bytes in every round.
-/
import Border.ConfigDocument
import Border.Restart

namespace Border

open GoJson GoMap NetAddr Transition

/-! ## The libraries -/

/-- The conversions of `ghodss/yaml`. -/
structure YamlCodec where
  yamlToJSON : List UInt8 → Except String Json
  jsonToYAML : Json → Except String (List UInt8)

/-- A record whose literal has its keys in order. -/
def Record.ordered (r : Record) : Record := { r with literalValue := sortedAnyMap r.literalValue }

def Zone.ordered (z : Zone) : Zone :=
  { z with records := z.records.map (List.map (Option.map Record.ordered)) }

/-- A configuration in which a loop over a literal visits the entries in the order of their
keys. -/
def ConfigData.ordered (d : ConfigData) : ConfigData :=
  { d with zones := mapValues (Option.map Zone.ordered) d.zones }

/-- Decoding a document into a zero value. -/
def unmarshalInto {α : Type} (d : Decoder α) (zero : α) (j : Json) : Except String α :=
  match d j zero with
  | (a, .ok) => .ok a
  | (_, .saved e) => .error (decodeErrorText e)
  | (_, .aborted e) => .error (decodeErrorText e)

/-- `yaml.Unmarshal`. -/
def yamlUnmarshal {α : Type} (yaml : YamlCodec) (d : Decoder α) (zero : α) (text : List UInt8) :
    Except String α := do
  let j ← (yaml.yamlToJSON text).mapError ("error converting YAML to JSON: " ++ ·)
  (unmarshalInto d zero j).mapError ("error unmarshaling JSON: " ++ ·)

/-- `encoding/json` and `ghodss/yaml` on configurations. -/
def goLibraries (codec : KeyCodec) (yaml : YamlCodec) (parseDuration : String → Except String ℤ)
    (hash : List UInt8 → String) : Libraries (List UInt8) where
  encodeJSON := writeConfig codec
  encodeYAML d := do
    let j ← (encodeConfigData codec d).mapError ("error marshaling into JSON: " ++ ·)
    (yaml.jsonToYAML j).mapError ("error converting JSON to YAML: " ++ ·)
  decodeJSON text := (readConfig codec text).map ConfigData.ordered
  decodeYAML text :=
    (yamlUnmarshal yaml (decodeConfigData codec.unmarshal) ConfigData.zero text).map
      ConfigData.ordered
  parseDuration := parseDuration
  hash := hash

theorem exists_of_map {α γ ε : Type} {x : Except ε α} {f : α → γ} {c : γ} (h : x.map f = .ok c) :
    ∃ a, x = .ok a ∧ f a = c := by
  cases x with
  | error e => cases h
  | ok a => exact ⟨a, rfl, Except.ok.inj h⟩

theorem ok_of_mapError {α : Type} {x : Except String α} {f : String → String} {a : α}
    (h : x.mapError f = .ok a) : x = .ok a := by
  cases x with
  | error e => cases h
  | ok b => exact congrArg Except.ok (Except.ok.inj h)

theorem unmarshalInto_ok {α : Type} {d : Decoder α} {zero a : α} {j : Json}
    (h : unmarshalInto d zero j = .ok a) : d j zero = (a, .ok) := by
  unfold unmarshalInto at h
  generalize d j zero = r at h ⊢
  obtain ⟨b, status⟩ := r
  cases status with
  | ok => exact congrArg (·, Status.ok) (Except.ok.inj h)
  | saved e => cases h
  | aborted e => cases h

/-- What decoding yields, `yaml.Unmarshal` yields. -/
theorem yamlUnmarshal_yields {α : Type} {yaml : YamlCodec} {d : Decoder α} {P : α → Prop}
    (hd : Yields d P) {zero a : α} (hzero : P zero) {text : List UInt8}
    (h : yamlUnmarshal yaml d zero text = .ok a) : P a := by
  obtain ⟨j, -, hj⟩ := exists_of_bind h
  have hdecoded := unmarshalInto_ok (ok_of_mapError hj)
  have hyields := hd j zero hzero (congrArg Prod.snd hdecoded)
  rwa [congrArg Prod.fst hdecoded] at hyields

/-! ## Records and zones that are read back as they are -/

/-- The elements of a slice of pointers that was mapped. -/
theorem some_mem_elems_map {α : Type} {f : α → α} {s : Slice (Option α)} {a : α} :
    some a ∈ Slice.elems (s.map (List.map (Option.map f))) ↔ ∃ b, some b ∈ s.elems ∧ f b = a := by
  cases s with
  | none => simp [Slice.elems]
  | some l =>
    show some a ∈ l.map (Option.map f) ↔ _
    rw [List.mem_map]
    constructor
    · rintro ⟨b, hb, heq⟩
      obtain ⟨b, rfl, rfl⟩ := Option.map_eq_some_iff.mp heq
      exact ⟨b, hb, rfl⟩
    · rintro ⟨b, hb, rfl⟩
      exact ⟨some b, hb, rfl⟩

/-- A record whose literal is read back as it is. -/
structure Record.Portable (r : Record) : Prop extends r.Formed where
  ordered : sortedAnyMap r.literalValue = r.literalValue

/-- Only the type and the literal matter. -/
theorem Record.Portable.congr {r r' : Record} (h : r.Portable) (htype : r'.type = r.type)
    (hliteral : r'.literalValue = r.literalValue) : r'.Portable := by
  refine ⟨⟨?_, ?_⟩, ?_⟩
  · rw [htype]
    exact h.type
  · rw [hliteral]
    exact h.literal
  · rw [hliteral]
    exact h.ordered

theorem sortedAnyMap_sortedAnyMap (m : Option (List (String × Json))) :
    sortedAnyMap (sortedAnyMap m) = sortedAnyMap m := by
  cases m with
  | none => rfl
  | some fields =>
    have h := sorted_sorted (.obj fields)
    simp only [Json.sorted, Json.obj.injEq] at h
    exact congrArg some h

theorem Record.Formed.portable {r : Record} (h : r.Formed) : r.ordered.Portable := by
  refine ⟨⟨h.type, fun fields hfields => ?_⟩, sortedAnyMap_sortedAnyMap _⟩
  obtain ⟨fields', hliteral, rfl⟩ := Option.map_eq_some_iff.mp hfields
  have hkeyed := keyed_sorted (h.literal fields' hliteral)
  rwa [Json.sorted] at hkeyed

/-- A zone that is read back as it is, up to the values of its records. -/
structure Zone.Portable (z : Zone) : Prop where
  soa : ∀ soa, z.soa = some soa → soa.Formed
  ns : ∀ ns, z.ns = some ns → ns.ttl < 2 ^ 32
  records : ∀ r, some r ∈ z.records.elems → r.Portable

theorem Zone.Portable.formed {z : Zone} (h : z.Portable) : z.Formed where
  soa := h.soa
  ns := h.ns
  records r hr rec heq := by
    subst heq
    exact (h.records rec hr).toFormed

theorem Zone.Formed.portable {z : Zone} (h : z.Formed) : z.ordered.Portable where
  soa := h.soa
  ns := h.ns
  records r hr := by
    obtain ⟨r', hr', rfl⟩ := some_mem_elems_map.mp hr
    exact (h.records _ hr' r' rfl).portable

/-- Only what is saved matters. -/
theorem Zone.Portable.of_exported {z z' : Zone} (h : z.Portable) (heq : z'.exported = z.exported) :
    z'.Portable := by
  have hsoa : z'.exported.soa = z.exported.soa := congrArg Zone.soa heq
  have hns : z'.exported.ns = z.exported.ns := congrArg Zone.ns heq
  have hrecords : z'.exported.records.elems = z.exported.records.elems :=
    congrArg (fun z => z.records.elems) heq
  refine ⟨fun soa h' => h.soa soa (hsoa.symm.trans h'), fun ns h' => h.ns ns (hns.symm.trans h'),
    fun r hr => ?_⟩
  have hmem : some r.exported ∈ z'.exported.records.elems := some_mem_elems_map.mpr ⟨r, hr, rfl⟩
  rw [hrecords] at hmem
  obtain ⟨r₀, hr₀, hexported⟩ := some_mem_elems_map.mp hmem
  exact (h.records r₀ hr₀).congr (congrArg Record.type hexported).symm
    (congrArg Record.literalValue hexported).symm

theorem Zone.Portable.rename {z : Zone} (h : z.Portable) (f : String → String) :
    (z.rename f).Portable where
  soa soa hsoa := by
    obtain ⟨soa', hsoa', rfl⟩ := Option.map_eq_some_iff.mp hsoa
    obtain ⟨hmin, hserial, hrefresh, hretry, hexpire⟩ := h.soa soa' hsoa'
    exact ⟨hmin, hserial, hrefresh, hretry, hexpire⟩
  ns ns hns := by
    obtain ⟨ns', hns', rfl⟩ := Option.map_eq_some_iff.mp hns
    exact h.ns ns' hns'
  records r hr := by
    obtain ⟨r', hr', rfl⟩ := some_mem_elems_map.mp hr
    exact (h.records r' hr').congr rfl rfl

/-- The TTL a zone gives to its NS entry is within its range. -/
theorem Zone.Portable.minTTL_lt {z : Zone} (h : z.Portable) : z.minTTL < 2 ^ 32 := by
  unfold Zone.minTTL
  cases hsoa : z.soa with
  | none => exact Nat.two_pow_pos 32
  | some soa => exact (h.soa soa hsoa).minTTL

theorem Zone.Portable.withDefaultTTL {z : Zone} (h : z.Portable) : z.withDefaultTTL.Portable where
  soa := h.soa
  ns ns hns := by
    obtain ⟨ns', hns', rfl⟩ := Option.map_eq_some_iff.mp hns
    unfold NS.withDefaultTTL
    split
    · exact h.minTTL_lt
    · exact h.ns ns' hns'
  records := h.records

/-- Records that are mapped alike. -/
theorem mapRecords_congr {f g : Record → Record} {s : Slice (Option Record)}
    (h : ∀ r, some r ∈ s.elems → f r = g r) :
    s.map (List.map (Option.map f)) = s.map (List.map (Option.map g)) := by
  cases s with
  | none => rfl
  | some rs =>
    refine congrArg some (List.map_congr_left fun r hr => ?_)
    cases r with
    | none => rfl
    | some r => exact congrArg some (h r hr)

/-- The normal form of a zone is what is saved of it. -/
theorem Zone.Portable.normal_eq {z : Zone} (h : z.Portable) : z.normal = z.exported := by
  unfold Zone.normal Zone.exported
  rw [mapRecords_congr fun r hr => ?_]
  unfold Record.normal Record.exported
  rw [(h.records r hr).ordered]

theorem Zone.Portable.ordered_eq {z : Zone} (h : z.Portable) : z.ordered = z := by
  have hid : z.records.map (List.map (Option.map Record.ordered)) = z.records := by
    rw [mapRecords_congr (g := id) fun r hr => ?_]
    · rw [Option.map_id_fun, List.map_id_fun, Option.map_id_fun]
      rfl
    · show { r with literalValue := sortedAnyMap r.literalValue } = r
      rw [(h.records r hr).ordered]
  unfold Zone.ordered
  rw [hid]

theorem Zone.Portable.exported {z : Zone} (h : z.Portable) : z.exported.Portable :=
  h.of_exported z.exported_exported

/-! ## Data that is read back as it is -/

/-- The configurations that are read back as they are, up to the values of their records. -/
def portable (codec : KeyCodec) : Domain where
  settings wait authKey :=
    (-2 ^ 63 ≤ wait ∧ wait < 2 ^ 63) ∧ ∀ key, authKey = some key → codec.Known key
  peer p := p.Writable codec
  zone z := z.Portable
  exported heq h := h.of_exported heq
  trim h := h.rename trimDot
  decorate h := h.rename addDot
  complete h := h.withDefaultTTL

abbrev ConfigData.Portable (codec : KeyCodec) (d : ConfigData) : Prop := d.In (portable codec)

section Libraries

variable {codec : KeyCodec} {yaml : YamlCodec} {parseDuration : String → Except String ℤ}
  {hash : List UInt8 → String} {d : ConfigData}

theorem ConfigData.Portable.writable (h : d.Portable codec) : d.Writable codec where
  authKey := h.settings.2
  peers p hp peer heq := by
    subst heq
    exact h.peers peer hp

theorem ConfigData.Portable.formed (h : d.Portable codec) : d.Formed where
  shutdownWait := h.settings.1
  zones key zone hzone z hz := by
    subst hz
    exact (h.zones key z hzone).formed

theorem portable_ordered (hformed : d.Formed) (hwritable : d.Writable codec) :
    d.ordered.Portable codec where
  settings := ⟨hformed.shutdownWait, hwritable.authKey⟩
  peers p hp := hwritable.peers (some p) hp p rfl
  zones key z hz := by
    have hz : (mapValues (Option.map Zone.ordered) d.zones).lookup key = some (some z) := hz
    rw [lookup_mapValues] at hz
    obtain ⟨zone, hzone, hordered⟩ := Option.map_eq_some_iff.mp hz
    obtain ⟨z', rfl, rfl⟩ := Option.map_eq_some_iff.mp hordered
    exact (hformed.zones key _ hzone z' rfl).portable

theorem portable_decodeJSON {text : List UInt8}
    (h : (goLibraries codec yaml parseDuration hash).decodeJSON text = .ok d) : d.Portable codec := by
  obtain ⟨d', hread, rfl⟩ := exists_of_map (show (readConfig codec text).map _ = .ok d from h)
  obtain ⟨hformed, hwritable⟩ := readConfig_formed hread
  exact portable_ordered hformed hwritable

theorem portable_decodeYAML {text : List UInt8}
    (h : (goLibraries codec yaml parseDuration hash).decodeYAML text = .ok d) : d.Portable codec := by
  obtain ⟨d', hread, rfl⟩ := exists_of_map (show (yamlUnmarshal yaml _ _ text).map _ = .ok d from h)
  obtain ⟨hformed, hwritable⟩ :=
    yamlUnmarshal_yields (yields_configData codec) (formed_zero codec) hread
  exact portable_ordered hformed hwritable

/-- The zones of the normal form, one by one. -/
theorem ConfigData.Portable.lookup_normal (h : d.Portable codec) (key : String) :
    d.normal.zones.lookup key = exportedAt d.zones key := by
  show (mapValues (Option.map Zone.normal) d.zones).lookup key = _
  rw [lookup_mapValues, exportedAt]
  cases hzone : d.zones.lookup key with
  | none => rfl
  | some zone =>
    cases zone with
    | none => rfl
    | some z => exact congrArg (fun z => some (some z)) (h.zones key z hzone).normal_eq

theorem ConfigData.Portable.normal (h : d.Portable codec) : d.normal.Portable codec := by
  refine ⟨h.settings, ?_, fun key z hz => ?_⟩
  · rw [normal_peers h.writable]
    exact h.peers
  · rw [h.lookup_normal key] at hz
    obtain ⟨zone, hzone, heq⟩ := Option.map_eq_some_iff.mp hz
    obtain ⟨z', rfl, rfl⟩ := Option.map_eq_some_iff.mp heq
    exact (h.zones key z' hzone).exported

/-- The normal form of a portable configuration agrees with it in all that is saved. -/
theorem ConfigData.Portable.normal_zones (h : d.Portable codec) :
    ZonesAgree d.normal.zones d.zones := by
  intro key
  rw [exportedAt, h.lookup_normal key, exportedAt, Option.map_map]
  refine congrArg (fun f => (d.zones.lookup key).map f) (funext fun zone => ?_)
  cases zone with
  | none => rfl
  | some z => exact congrArg some z.exported_exported

theorem ConfigData.Portable.normal_agrees (h : d.Portable codec) : d.normal.ordered.Agrees d := by
  refine ⟨rfl, rfl, rfl, normal_peers h.writable, fun key => ?_⟩
  show ((mapValues (Option.map Zone.ordered) d.normal.zones).lookup key).map
    (Option.map Zone.exported) = exportedAt d.zones key
  rw [← h.normal_zones key, lookup_mapValues, exportedAt]
  cases hzone : d.normal.zones.lookup key with
  | none => rfl
  | some zone =>
    cases zone with
    | none => rfl
    | some z =>
      show some (some z.ordered.exported) = some (some z.exported)
      rw [(h.normal.zones key z hzone).ordered_eq]

/-- **Portable data is decoded from its own text**, in everything that is saved. -/
theorem decode_encode (hcodec : codec.Lawful) (hd : d.Portable codec) {text : List UInt8}
    (h : (goLibraries codec yaml parseDuration hash).encodeJSON d = .ok text) :
    ∃ d', (goLibraries codec yaml parseDuration hash).decodeJSON text = .ok d' ∧ d'.Agrees d := by
  have hread : readConfig codec text = .ok d.normal := by
    have happend := readConfig_append hcodec hd.formed h []
    rwa [List.append_nil] at happend
  exact ⟨d.normal.ordered, congrArg (Except.map ConfigData.ordered) hread, hd.normal_agrees⟩

/-- **The class is one on which `encoding/json` gives back what it has written.** -/
theorem roundTrips_goLibraries (hcodec : codec.Lawful) :
    RoundTrips (goLibraries codec yaml parseDuration hash) (portable codec) :=
  fun _ _ hd h => decode_encode hcodec hd h

/-- The YAML reader takes a text for a document, as far as decoding tells. -/
def YamlCodec.ReadsAs (yaml : YamlCodec) (codec : KeyCodec) (text : List UInt8) (j : Json) : Prop :=
  ∃ j', yaml.yamlToJSON text = .ok j' ∧ decodeConfigData codec.unmarshal j' ConfigData.zero
    = decodeConfigData codec.unmarshal j ConfigData.zero

/-- On a class of portable configurations, the YAML reader reads what the YAML writer and what
`SaveJSON` write.  A document comes back with its keys in another order; and not every text can
stand in a YAML file, so the class may be smaller than that of all portable ones. -/
structure YamlCodec.Keeps (yaml : YamlCodec) (codec : KeyCodec) (D : Domain) : Prop where
  portable : ∀ d : ConfigData, d.In D → d.Portable codec
  ofYAML : ∀ d j text, ConfigData.In D d → encodeConfigData codec d = .ok j →
    yaml.jsonToYAML j = .ok text → yaml.ReadsAs codec text j
  ofJSON : ∀ d j, ConfigData.In D d → encodeConfigData codec d = .ok j →
    yaml.ReadsAs codec (render j ++ [ascii '\n']) j

theorem decodeYAML_readsAs (hcodec : codec.Lawful) (hd : d.Portable codec) {j : Json}
    (hj : encodeConfigData codec d = .ok j) {text : List UInt8} (h : yaml.ReadsAs codec text j) :
    ∃ d', (goLibraries codec yaml parseDuration hash).decodeYAML text = .ok d' ∧ d'.Agrees d := by
  obtain ⟨j', hread, hsame⟩ := h
  rw [reads_configData hcodec hd.formed hj] at hsame
  have hinto : unmarshalInto (decodeConfigData codec.unmarshal) ConfigData.zero j' = .ok d.normal := by
    unfold unmarshalInto
    rw [hsame]
  have hdecode : yamlUnmarshal yaml (decodeConfigData codec.unmarshal) ConfigData.zero text
      = .ok d.normal := by
    unfold yamlUnmarshal
    rw [hread]
    show (unmarshalInto _ _ j').mapError _ = _
    rw [hinto]
    rfl
  exact ⟨d.normal.ordered, congrArg (Except.map ConfigData.ordered) hdecode, hd.normal_agrees⟩

theorem roundTripsYAML_goLibraries (hcodec : codec.Lawful) {D : Domain} (hyaml : yaml.Keeps codec D) :
    RoundTripsYAML (goLibraries codec yaml parseDuration hash) D := by
  intro d text hd h
  obtain ⟨j, hj, htext⟩ := exists_of_bind h
  have hj := ok_of_mapError hj
  exact decodeYAML_readsAs hcodec (hyaml.portable d hd) hj
    (hyaml.ofYAML d j text hd hj (ok_of_mapError htext))

theorem readsJSON_goLibraries (hcodec : codec.Lawful) {D : Domain} (hyaml : yaml.Keeps codec D) :
    ReadsJSON (goLibraries codec yaml parseDuration hash) D := by
  intro d text hd h
  obtain ⟨j, hj, rfl⟩ := exists_of_map (show (encodeConfigData codec d).map _ = .ok text from h)
  exact decodeYAML_readsAs hcodec (hyaml.portable d hd) hj (hyaml.ofJSON d j hd hj)

/-- What a loader of the program gives is portable. -/
theorem portable_loader {loader : List UInt8 → Except String Config}
    (hloader : loader = loadJSON (goLibraries codec yaml parseDuration hash) ∨
      loader = loadYAML (goLibraries codec yaml parseDuration hash))
    {document : List UInt8} {c : Config} (h : loader document = .ok c) :
    c.toConfigData.Portable codec := by
  rcases hloader with rfl | rfl
  · obtain ⟨d, hd, rfl⟩ := exists_of_map h
    exact portable_decodeJSON hd
  · obtain ⟨d, hd, rfl⟩ := exists_of_map h
    exact portable_decodeYAML hd

/-- **What `FromDisk` loads is portable**, after its conversion and its decoration. -/
theorem portable_fromDisk {loader : List UInt8 → Except String Config}
    (hloader : loader = loadJSON (goLibraries codec yaml parseDuration hash) ∨
      loader = loadYAML (goLibraries codec yaml parseDuration hash))
    {env : Env} {c loaded : Config} {filename : String} {file : Option (File (List UInt8))}
    (h : fromDisk (goLibraries codec yaml parseDuration hash) env c filename loader file
      = .ok loaded) :
    loaded.toConfigData.Portable codec := by
  obtain ⟨document, newConfig, -, hload, hpost⟩ := fromDisk_ok h
  obtain ⟨converted, hconvert, hdecorate, rfl⟩ := postLoad_ok hpost
  have hportable := portable_loader hloader hload
  have hzones : (decorateZones (env.order .decorate) converted).1
      = renamed addDot (env.order .decorate) converted := renameZones_eq_renamed hdecorate
  show ConfigData.Portable codec { newConfig.toConfigData with
    zones := (decorateZones (env.order .decorate) converted).1 }
  rw [hzones]
  exact hportable.withZones
    ((hportable.zones.converted hconvert).renamed (portable codec).decorate _)

end Libraries

/-! ## Saving and loading back -/

/-- **Saving and loading back brings loaded zones back**, the values of their records included:
when the configuration that is saved agrees with loaded zones in everything that is saved, and
its document is decoded again, these zones are what comes out. -/
theorem saved_exact {β : Type} {lib : Libraries β} {env : Env} {before after : Node β} {json yaml : β}
    {loaded : Config} (h : Saved lib env before after json yaml loaded)
    (hround : ∃ d, lib.decodeJSON json = .ok d ∧
      d.Agrees (before.config.toConfigData.trim (env.order .trimJSON)))
    {zones : Zones} (hzones : ZonesLoaded lib.parseDuration zones)
    (hlabels : ZonesNames NoEmptyLabel zones) (hagree : ZonesAgree before.config.zones zones) :
    after.config.toConfigData = { before.config.toConfigData with zones := zones } := by
  obtain ⟨htrim, -⟩ := saveStage_ok h.stage
  obtain ⟨data', hdecode', hagrees⟩ := hround
  obtain ⟨data, converted, hdecode, hconvert, hdecorate, hloaded⟩ := fromDisk_json_ok h.load
  obtain rfl := Except.ok.inj (hdecode'.symm.trans hdecode)
  have hdecorated : (decorateZones (env.order .decorate) converted).1
      = renamed addDot (env.order .decorate) converted := renameZones_eq_renamed hdecorate
  have htrimmed : (trimZones (env.order .trimJSON) before.config.zones).1
      = renamed trimDot (env.order .trimJSON) before.config.zones := renameZones_eq_renamed htrim
  -- from memory to the file, and back
  have hpassage : Passage zones before.config.zones data'.zones converted env := by
    refine ⟨hagree, ?_, _, hconvert⟩
    rw [← htrimmed]
    exact hagrees.zones
  have hsame : renamed addDot (env.order .decorate) converted = zones :=
    (zonesLoaded_of_convert hconvert).eq_of_agree hzones
      ((zonesAgree_iff hpassage).mpr (hzones.settled hlabels))
  have hdata : data' = { before.config.toConfigData with zones := data'.zones } := by
    have hwait : data'.shutdownWait = before.config.shutdownWait := hagrees.shutdownWait
    have hkey : data'.authKey = before.config.authKey := hagrees.authKey
    have hlisten : data'.listen = before.config.listen := hagrees.listen
    have hpeers : data'.peers = before.config.peers := hagrees.peers
    show data' = ConfigData.mk before.config.shutdownWait before.config.authKey before.config.listen
      before.config.peers data'.zones
    rw [← hwait, ← hkey, ← hlisten, ← hpeers]
  have hconfig : after.config.toConfigData = loaded.toConfigData := by rw [h.config]
  rw [hconfig, hloaded, hdecorated, hsame, hdata]

section Rounds

variable {codec : KeyCodec} {yaml : YamlCodec} {parseDuration : String → Except String ℤ}
  {hash : List UInt8 → String}

/-- What is written of a portable configuration is decoded again. -/
theorem saved_round (hcodec : codec.Lawful) {env : Env} {before after : Node (List UInt8)}
    {json yamlText : List UInt8} {loaded : Config}
    (h : Saved (goLibraries codec yaml parseDuration hash) env before after json yamlText loaded)
    (hportable : before.config.toConfigData.Portable codec) :
    ∃ d, (goLibraries codec yaml parseDuration hash).decodeJSON json = .ok d ∧
      d.Agrees (before.config.toConfigData.trim (env.order .trimJSON)) := by
  obtain ⟨htrim, hencode⟩ := saveStage_ok h.stage
  exact decode_encode hcodec (hportable.trim htrim) hencode

/-- Without collisions the order of the loop does not matter. -/
theorem renamed_order {f : String → String} {zones : Zones}
    (hinj : ∀ k ∈ zones, ∀ l ∈ zones, f k = f l → k = l)
    (order order' : RangeOrder String (Option Zone)) :
    renamed f order zones = renamed f order' zones := by
  have hlookup : ∀ (order order' : RangeOrder String (Option Zone)) (key : String)
      (zone : Option Zone), (renamed f order zones).lookup key = some zone →
      (renamed f order' zones).lookup key = some zone := by
    intro order order' key zone h
    obtain ⟨k, zone', hk, rfl, rfl⟩ := exists_of_lookup_rekey_empty h
    refine lookup_rekey (fun a ha b hb => ?_) ?_ hk
    · exact hinj a ((order'.mem_keys zones a).mp ha) b ((order'.mem_keys zones b).mp hb)
    · exact (order'.mem_keys zones k).mpr (Finmap.mem_of_lookup_eq_some hk)
  refine Finmap.ext_lookup fun key => Option.ext fun zone => ?_
  exact ⟨hlookup order order' key zone, hlookup order' order key zone⟩

/-- The data a loaded configuration has on disk: every name without its dot. -/
def ConfigData.onDisk (d : ConfigData) : ConfigData :=
  { d with zones := renamed trimDot (sortedOrder String (Option Zone)) d.zones }

/-- The document of a save, whatever the order of its loops. -/
theorem saved_document {env : Env} {before after : Node (List UInt8)} {json yamlText : List UInt8}
    {loaded : Config}
    (h : Saved (goLibraries codec yaml parseDuration hash) env before after json yamlText loaded)
    (hdots : ∀ key ∈ before.config.zones, HasDot key) :
    writeConfig codec before.config.toConfigData.onDisk = .ok json := by
  obtain ⟨htrim, hencode⟩ := saveStage_ok h.stage
  have htrimmed : (trimZones (env.order .trimJSON) before.config.zones).1
      = renamed trimDot (env.order .trimJSON) before.config.zones := renameZones_eq_renamed htrim
  have hinj : ∀ k ∈ before.config.zones, ∀ l ∈ before.config.zones, trimDot k = trimDot l → k = l := by
    intro k hk l hl heq
    rw [← trimDot_append_dot (hdots k hk), heq, trimDot_append_dot (hdots l hl)]
  have hdata : before.config.toConfigData.trim (env.order .trimJSON)
      = before.config.toConfigData.onDisk := by
    unfold ConfigData.trim ConfigData.onDisk
    rw [htrimmed, renamed_order hinj]
  rw [← hdata]
  exact hencode

/-- **One round**: the configuration stays, and the file has its document. -/
theorem roundStep_file (hcodec : codec.Lawful) {env : Env} {node node' : Node (List UInt8)}
    (h : roundStep (goLibraries codec yaml parseDuration hash) node env = some node')
    (hportable : node.config.toConfigData.Portable codec)
    (hloaded : ZonesLoaded parseDuration node.config.zones)
    (hlabels : ZonesNames NoEmptyLabel node.config.zones) :
    node'.config = { node.config with reload := true } ∧
      ∃ text, writeConfig codec node.config.toConfigData.onDisk = .ok text ∧
        node'.disk node.jsonPath = some (.doc text) := by
  obtain ⟨json, yamlText, loaded, hsaved⟩ := saveConfig_ok (roundStep_ok h)
  have hdata := saved_exact hsaved (saved_round hcodec hsaved hportable) hloaded hlabels
    fun _ => rfl
  have hdots : ∀ key ∈ node.config.zones, HasDot key := by
    intro key hkey
    obtain ⟨zone, hzone⟩ := Finmap.mem_iff.mp hkey
    exact (hloaded key zone hzone).1
  refine ⟨?_, json, saved_document hsaved hdots, hsaved.json⟩
  have hsame : loaded.toConfigData = node.config.toConfigData := by
    rw [hsaved.config] at hdata
    exact hdata
  rw [hsaved.config, hsame]

/-- **The configuration file is written with the same bytes again and again.**  A node that has
loaded its configuration, from JSON or from YAML, saves it and reloads it any number of times, each
time with an order of its own for every loop over a map.  If no name has an empty label before its
last dot, then after every round the file holds one and the same text, and the configuration is the
one that was loaded.  The text is that of Go when the numbers in literals are integers up to
`2 ^ 53`. -/
theorem json_file_stable (hcodec : codec.Lawful) {loader : List UInt8 → Except String Config}
    (hloader : loader = loadJSON (goLibraries codec yaml parseDuration hash) ∨
      loader = loadYAML (goLibraries codec yaml parseDuration hash))
    {loadEnv : Env} {c₀ c : Config} {filename : String} {file : Option (File (List UInt8))}
    (hload : fromDisk (goLibraries codec yaml parseDuration hash) loadEnv c₀ filename loader file
      = .ok c) (hlabels : ZonesNames NoEmptyLabel c.zones) {node : Node (List UInt8)}
    (hnode : node.config.toConfigData = c.toConfigData) {text : List UInt8}
    (htext : writeConfig codec c.toConfigData.onDisk = .ok text) {envs : List Env} {env : Env}
    {node' : Node (List UInt8)}
    (hrun : run (roundStep (goLibraries codec yaml parseDuration hash)) node (env :: envs)
      = some node') :
    node'.disk node.jsonPath = some (.doc text) ∧
      node'.config = { node.config with reload := true } := by
  have hloaded : ZonesLoaded parseDuration c.zones := zonesLoaded_of_fromDisk hload
  have hportable : c.toConfigData.Portable codec := portable_fromDisk hloader hload
  have hround : ∀ n e n', (∃ signal, n.config = { node.config with reload := signal }) →
      roundStep (goLibraries codec yaml parseDuration hash) n e = some n' →
      n'.config = { node.config with reload := true } ∧
        n'.disk node.jsonPath = some (.doc text) := by
    rintro n e n' ⟨signal, hn⟩ hstep
    have hdata : n.config.toConfigData = c.toConfigData := by rw [hn]; exact hnode
    have hzones : n.config.zones = c.zones := congrArg ConfigData.zones hdata
    obtain ⟨hconfig, text', htext', hfile⟩ := roundStep_file hcodec hstep
      (by rw [hdata]; exact hportable) (by rw [hzones]; exact hloaded)
      (by rw [hzones]; exact hlabels)
    rw [hdata, htext] at htext'
    obtain rfl := Except.ok.inj htext'
    refine ⟨by rw [hconfig, hn], ?_⟩
    have hpath : n.jsonPath = node.jsonPath := by
      unfold Node.jsonPath
      rw [hn]
    rw [← hpath]
    exact hfile
  rw [run_cons] at hrun
  obtain ⟨n, hfirst, hrest⟩ := Option.bind_eq_some_iff.mp hrun
  obtain ⟨hconfig, hfile⟩ := hround node env n ⟨node.config.reload, rfl⟩ hfirst
  refine run_invariant (P := fun n => n.disk node.jsonPath = some (.doc text) ∧
    n.config = { node.config with reload := true }) ?_ ⟨hfile, hconfig⟩ hrest
  intro n e n' hn hstep
  obtain ⟨hconfig', hfile'⟩ := hround n e n' ⟨true, hn.2⟩ hstep
  exact ⟨hfile', hconfig'⟩

end Rounds

/-- JSON documents in place of YAML ones. -/
def jsonYaml : YamlCodec where
  yamlToJSON text := (parseFirst text).mapError fun e => e.text
  jsonToYAML j := .ok (render j)

/-- In this form all portable configurations are kept. -/
theorem keeps_jsonYaml (codec : KeyCodec) : jsonYaml.Keeps codec (portable codec) := by
  have hread : ∀ d j rest, encodeConfigData codec d = .ok j →
      jsonYaml.ReadsAs codec (render j ++ rest) j := by
    intro d j rest h
    obtain ⟨_, -, h⟩ := exists_of_bind h
    obtain ⟨_, -, h⟩ := exists_of_bind h
    obtain ⟨_, -, h⟩ := exists_of_bind h
    cases h
    refine ⟨_, ?_, rfl⟩
    show (parseFirst _).mapError _ = _
    rw [parseFirst_render]
    rfl
  refine ⟨fun _ => id, fun d j text _ hj htext => ?_, fun d j _ hj => hread d j _ hj⟩
  cases htext
  have h := hread d j [] hj
  rwa [List.append_nil] at h

/-- The libraries with symmetric keys. -/
def byteLibraries : Libraries (List UInt8) :=
  goLibraries octCodec jsonYaml (fun _ => .error "time: invalid duration") fun _ => ""

/-- The bytes of a document with a zone. -/
def zonedText : List UInt8 := ((writeConfig octCodec zonedDocument).toOption).getD []

theorem json_file_stable_zoned :
    ∃ c text node', fromDisk byteLibraries calmEnv (Config.new []) "border.yaml"
        (loadYAML byteLibraries) (some (.doc zonedText)) = .ok c ∧
      run (roundStep byteLibraries) ⟨c, fun _ => none⟩ [calmEnv, calmEnv] = some node' ∧
      node'.disk "border.json" = some (.doc text) ∧ node'.config = { c with reload := true } := by
  have hrun : okWith (fun c => decide (ZonesNames NoEmptyLabel c.zones) &&
      (writeConfig octCodec c.toConfigData.onDisk).isOk &&
      decide (c.filenamePrefix = "border") &&
      (run (roundStep byteLibraries) ⟨c, fun _ => none⟩ [calmEnv, calmEnv]).isSome)
      (fromDisk byteLibraries calmEnv (Config.new []) "border.yaml" (loadYAML byteLibraries)
        (some (.doc zonedText))) = true := by
    decide +kernel
  obtain ⟨c, hload, htest⟩ := okWith_eq_true hrun
  simp only [Bool.and_eq_true, decide_eq_true_eq] at htest
  obtain ⟨⟨⟨hlabels, hwrite⟩, hname⟩, hsome⟩ := htest
  obtain ⟨node', hnode'⟩ := Option.isSome_iff_exists.mp hsome
  cases htext : writeConfig octCodec c.toConfigData.onDisk with
  | error e =>
    rw [htext] at hwrite
    cases hwrite
  | ok text =>
    have hpath : Node.jsonPath ⟨c, fun _ => (none : Option (File (List UInt8)))⟩ = "border.json" := by
      unfold Node.jsonPath
      rw [hname]
      rfl
    have hstable : node'.disk (Node.jsonPath ⟨c, fun _ => (none : Option (File (List UInt8)))⟩)
        = some (.doc text) ∧ node'.config = { c with reload := true } :=
      json_file_stable lawful_octCodec (Or.inr rfl) hload hlabels rfl htext hnode'
    rw [hpath] at hstable
    exact ⟨c, text, node', hload, hnode', hstable⟩

end Border
