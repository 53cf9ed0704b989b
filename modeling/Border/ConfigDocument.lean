/-
# The configuration as a JSON text

`SaveJSON` (`pkg/config/disk.go`) writes the configuration with `encoding/json`, and `LoadJSON`
reads it with a decoder that takes the first document of the file.  Here both are functions on
bytes: `writeConfig` lays the fields out as their tags say and renders them, `readConfig` scans
the text and decodes it field by field.  How a `jose.JSONWebKey` is written and read is the
parameter `KeyCodec`.

* `readConfig_writeConfig` : what is written is read back, up to `ConfigData.normal`: an address
  comes back in its 16-byte form, a literal with its keys in order, and a record without the
  value that was converted from its literal;
* `readConfig_formed` : what is read is within the ranges of its types and can be written;
* `config_text_roundtrip` : so a configuration that was read from any text can be written and is
  read back, and writing it again gives the same bytes.
-/
import Border.IPText
import Border.JsonEncode
import Border.JsonRender
import Border.Request

namespace Border

open GoJson NetAddr

/-! ## Encoding a configuration -/

/-- How the library for keys writes and reads one. -/
structure KeyCodec where
  marshal : Encoder JSONWebKey
  unmarshal : Json → Except String JSONWebKey

/-- A key is read back, is never written as `null`, and one that was read can be written. -/
structure KeyCodec.Lawful (codec : KeyCodec) : Prop where
  reads : ∀ key j, codec.marshal key = .ok j → j ≠ .null ∧ codec.unmarshal j = .ok key
  writes : ∀ key j, codec.unmarshal j = .ok key → ∃ j', codec.marshal key = .ok j'

/-- `hexString`. -/
def hexString (ip : IP) : String :=
  String.ofList (ip.flatMap fun b => [Nat.digitChar (b.toNat / 16), Nat.digitChar (b.toNat % 16)])

/-- `IP.MarshalText`. -/
def encodeIP : Encoder IP := fun ip =>
  if ip.length = 0 then .ok (.str "")
  else if ip.length = 4 ∨ ip.length = 16 then .ok (.str (ipString ip))
  else .error ("json: error calling MarshalText for type net.IP: address " ++ hexString ip ++
    ": invalid IP address")

/-- A `config.ListenConfig`. -/
def encodeListen (l : ListenConfig) : Json := .obj [("dns", .str l.dns), ("control", .str l.control)]

/-- A `dnsconfig.SOA`. -/
def encodeSOA (soa : SOA) : Json :=
  .obj [("Domain", .str soa.domain), ("Admin", .str soa.admin), ("MinTTL", .num soa.minTTL 0),
    ("Serial", .num soa.serial 0), ("Refresh", .num soa.refresh 0), ("Retry", .num soa.retry 0),
    ("Expire", .num soa.expire 0)]

/-- A `dnsconfig.NS`. -/
def encodeNS (ns : NS) : Json :=
  .obj [("Servers", .arr (ns.servers.map .str)), ("TTL", .num ns.ttl 0)]

/-- The text of a record's type. -/
def RecordType.text : RecordType → String
  | .a => "A"
  | .lb => "LB"
  | .other type => type

/-- A `config.Record`, without its converted value. -/
def encodeRecord (r : Record) : Json :=
  .obj [("type", .str r.type.text), ("name", .str r.name), ("value", encodeAnyMap r.literalValue)]

/-- A `config.Zone`. -/
def encodeZone : Encoder Zone := fun z => do
  let soa ← encodePtr (fun soa => .ok (encodeSOA soa)) z.soa
  let ns ← encodePtr (fun ns => .ok (encodeNS ns)) z.ns
  let records ← encodeSlice (encodePtr fun r => .ok (encodeRecord r)) z.records
  .ok (.obj [("soa", soa), ("ns", ns), ("records", records)])

section Keys

variable (codec : KeyCodec)

/-- A `config.Peer`. -/
def encodePeer : Encoder Peer := fun p => do
  let ips ← encodeSlice encodeIP p.ips
  let key ← encodePtr codec.marshal p.key
  .ok (.obj [("ips", ips), ("control_server", .str p.controlServer), ("key", key)])

/-- The fields of a `config.Config` that are in a document.  The zones are a map that was made:
before anything is written, `trimZones` or `decorateZones` has put a new one in place. -/
def encodeConfigData : Encoder ConfigData := fun d => do
  let authKey ← encodePtr codec.marshal d.authKey
  let peers ← encodeSlice (encodePtr (encodePeer codec)) d.peers
  let zones ← encodeMap (encodePtr encodeZone) d.zones
  .ok (.obj [("shutdown_wait", .num d.shutdownWait 0), ("auth_key", authKey),
    ("listen", encodeListen d.listen), ("peers", peers), ("zones", zones)])

/-- `SaveJSON` on zones that were trimmed: the document and a line break. -/
def writeConfig (d : ConfigData) : Except String (List UInt8) :=
  (encodeConfigData codec d).map fun j => render j ++ [ascii '\n']

/-- The text of a decoding error. -/
def decodeErrorText : DecodeError → String
  | .mismatch value type => "json: cannot unmarshal " ++ value ++ " into Go value of type " ++ type
  | .custom msg => msg

/-- `LoadJSON`, the sum of the bytes apart. -/
def readConfig (text : List UInt8) : Except String ConfigData :=
  match parseFirst text with
  | .error e => .error e.text
  | .ok j =>
    match decodeConfigData codec.unmarshal j ConfigData.zero with
    | (d, .ok) => .ok d
    | (_, .saved e) => .error (decodeErrorText e)
    | (_, .aborted e) => .error (decodeErrorText e)

end Keys

/-! ## What an encoding does not keep -/

/-- The 16-byte form of an address. -/
def normalIP (ip : IP) : IP := (to16 ip).getD ip

/-- A peer with its addresses in 16-byte form. -/
def Peer.normal (p : Peer) : Peer := { p with ips := p.ips.map (List.map normalIP) }

/-- A record without its converted value, the keys of its literal in order. -/
def Record.normal (r : Record) : Record :=
  { r with literalValue := sortedAnyMap r.literalValue, value := none }

def Zone.normal (z : Zone) : Zone :=
  { z with records := z.records.map (List.map (Option.map Record.normal)) }

def ConfigData.normal (d : ConfigData) : ConfigData :=
  { d with
    peers := d.peers.map (List.map (Option.map Peer.normal))
    zones := mapValues (Option.map Zone.normal) d.zones }

/-! ## Values within the ranges of their types -/

structure SOA.Formed (soa : SOA) : Prop where
  minTTL : soa.minTTL < 2 ^ 32
  serial : soa.serial < 2 ^ 32
  refresh : soa.refresh < 2 ^ 32
  retry : soa.retry < 2 ^ 32
  expire : soa.expire < 2 ^ 32

/-- The type of a record is known by its text, and no object of its literal has a key twice. -/
structure Record.Formed (r : Record) : Prop where
  type : RecordType.ofString r.type.text = r.type
  literal : ∀ fields, r.literalValue = some fields → (Json.obj fields).Keyed

structure Zone.Formed (z : Zone) : Prop where
  soa : ∀ soa, z.soa = some soa → soa.Formed
  ns : ∀ ns, z.ns = some ns → ns.ttl < 2 ^ 32
  records : ∀ r ∈ z.records.elems, ∀ rec, r = some rec → rec.Formed

structure ConfigData.Formed (d : ConfigData) : Prop where
  shutdownWait : -2 ^ 63 ≤ d.shutdownWait ∧ d.shutdownWait < 2 ^ 63
  zones : ∀ key zone, d.zones.lookup key = some zone → ∀ z, zone = some z → z.Formed

/-! ## Reading back what was written -/

/-- An address is read back in its 16-byte form. -/
theorem reads_IP {ip : IP} {j : Json} (h : encodeIP ip = .ok j) (old : IP) :
    decodeIP j old = (normalIP ip, .ok) := by
  unfold encodeIP at h
  split at h
  next hlen =>
    cases h
    rw [List.length_eq_zero_iff.mp hlen]
    rfl
  next hlen =>
    split at h
    next hsize =>
      cases h
      obtain ⟨bytes, hbytes⟩ : ∃ bytes, to16 ip = some bytes := by
        unfold to16
        rcases hsize with h4 | h16
        · exact ⟨_, if_pos h4⟩
        · exact ⟨ip, by rw [if_neg (by omega), if_pos h16]⟩
      have hparse : parseIP (ipString ip) = some bytes := by rw [parseIP_ipString, hbytes]
      have hne : ipString ip ≠ "" := by
        intro hempty
        rw [hempty] at hparse
        cases hparse
      rw [decodeIP, if_neg hne, hparse, normalIP, hbytes]
      rfl
    next => cases h

theorem reads_listen (l old : ListenConfig) : decodeListen (encodeListen l) old = (l, .ok) := by
  simp [decodeListen, encodeListen, decodeStruct, decodeFields, findField, field, decodeString,
    Status.andThen]

theorem reads_SOA {soa : SOA} (h : soa.Formed) (old : SOA) :
    decodeSOA (encodeSOA soa) old = (soa, .ok) := by
  simp [decodeSOA, encodeSOA, decodeStruct, decodeFields, findField, field, decodeString,
    decodeUint32_num h.minTTL, decodeUint32_num h.serial, decodeUint32_num h.refresh,
    decodeUint32_num h.retry, decodeUint32_num h.expire, Status.andThen]

/-- Texts are read back into whatever stands there. -/
theorem reads_strings (names old : List String) :
    decodeItems "" decodeString (names.map .str) old = (names, .ok) := by
  induction names generalizing old with
  | nil => rfl
  | cons name names ih =>
    rw [List.map_cons, decodeItems_cons_ok (decodeString_str name _), ih]

theorem reads_NS {ns : NS} (h : ns.ttl < 2 ^ 32) (old : NS) :
    decodeNS (encodeNS ns) old = (ns, .ok) := by
  simp [decodeNS, encodeNS, decodeStruct, decodeFields, findField, field, decodeSlice,
    reads_strings, decodeUint32_num h, Slice.elems, Status.andThen]

/-- A record is read back into a new one. -/
theorem reads_record {r : Record} (h : r.Formed) :
    decodeRecord (encodeRecord r) ⟨.other "", "", none, none⟩ = (r.normal, .ok) := by
  have htype : ∀ old, decodeRecordType (.str r.type.text) old = (r.type, .ok) := by
    intro old
    rw [decodeRecordType, h.type]
  simp [decodeRecord, encodeRecord, decodeStruct, decodeFields, findField, field, decodeString,
    htype, decodeAnyMap_encodeAnyMap h.literal, Record.normal, Status.andThen]

/-- A zone is read back into a new one. -/
theorem reads_zone {z : Zone} (hz : z.Formed) {j : Json} (h : encodeZone z = .ok j) :
    j ≠ .null ∧ decodeZone j ⟨none, none, none⟩ = (z.normal, .ok) := by
  obtain ⟨soa, hsoa, h⟩ := exists_of_bind h
  obtain ⟨ns, hns, h⟩ := exists_of_bind h
  obtain ⟨records, hrecords, h⟩ := exists_of_bind h
  cases h
  have hsoa' : decodePtr ⟨"", "", 0, 0, 0, 0, 0⟩ decodeSOA soa none = (z.soa, .ok) := by
    have hread : decodePtr ⟨"", "", 0, 0, 0, 0, 0⟩ decodeSOA soa none = (z.soa.map id, .ok) :=
      reads_ptr hsoa fun s j hs hj => by
        cases hj
        exact ⟨by simp [encodeSOA], reads_SOA (hz.soa s hs) _⟩
    rwa [Option.map_id] at hread
  have hns' : decodePtr ⟨[], 0⟩ decodeNS ns none = (z.ns, .ok) := by
    have hread : decodePtr ⟨[], 0⟩ decodeNS ns none = (z.ns.map id, .ok) :=
      reads_ptr hns fun n j hn hj => by
        cases hj
        exact ⟨by simp [encodeNS], reads_NS (hz.ns n hn) _⟩
    rwa [Option.map_id] at hread
  have hrecords' : decodeSlice none (decodePtr ⟨.other "", "", none, none⟩ decodeRecord) records none
      = (z.normal.records, .ok) := by
    refine reads_slice hrecords fun r hr j hj => reads_ptr hj fun rec j hrec hj => ?_
    cases hj
    exact ⟨by simp [encodeRecord], reads_record (hz.records r hr rec hrec)⟩
  refine ⟨by simp, ?_⟩
  simp [decodeZone, decodeStruct, decodeFields, findField, field, hsoa', hns', hrecords',
    Status.andThen, Zone.normal]

section Lawful

variable {codec : KeyCodec} (hcodec : codec.Lawful)

include hcodec

/-- A pointer to a key is read back. -/
theorem reads_keyPtr {key : Option JSONWebKey} {j : Json}
    (h : encodePtr codec.marshal key = .ok j) :
    decodeKeyPtr codec.unmarshal j none = (key, .ok) := by
  have hread : decodeKeyPtr codec.unmarshal j none = (key.map id, .ok) :=
    reads_ptr h fun k j _ hj => by
      obtain ⟨hnull, hkey⟩ := hcodec.reads k j hj
      exact ⟨hnull, by rw [decodeKey, hkey]; rfl⟩
  rwa [Option.map_id] at hread

/-- A peer is read back into a new one. -/
theorem reads_peer {p : Peer} {j : Json} (h : encodePeer codec p = .ok j) :
    j ≠ .null ∧ decodePeer codec.unmarshal j ⟨none, "", none⟩ = (p.normal, .ok) := by
  obtain ⟨ips, hips, h⟩ := exists_of_bind h
  obtain ⟨key, hkey, h⟩ := exists_of_bind h
  cases h
  have hips' : decodeSlice [] decodeIP ips none = (p.normal.ips, .ok) :=
    reads_slice hips fun ip _ j hj => reads_IP hj []
  refine ⟨by simp, ?_⟩
  simp [decodePeer, decodeStruct, decodeFields, findField, field, decodeString, hips',
    reads_keyPtr hcodec hkey, Status.andThen, Peer.normal]

/-- **A configuration is read back into a new one.** -/
theorem reads_configData {d : ConfigData} (hd : d.Formed) {j : Json}
    (h : encodeConfigData codec d = .ok j) :
    decodeConfigData codec.unmarshal j ConfigData.zero = (d.normal, .ok) := by
  obtain ⟨authKey, hkey, h⟩ := exists_of_bind h
  obtain ⟨peers, hpeers, h⟩ := exists_of_bind h
  obtain ⟨zones, hzones, h⟩ := exists_of_bind h
  cases h
  have hkey' := reads_keyPtr hcodec hkey
  have hpeers' : decodeSlice none (decodePeerPtr codec.unmarshal) peers none
      = (d.normal.peers, .ok) :=
    reads_slice hpeers fun p _ j hj => reads_ptr hj fun q j _ hj => reads_peer hcodec hj
  have hzones' : decodeMap none (decodePtr ⟨none, none, none⟩ decodeZone) zones ∅
      = (d.normal.zones, .ok) :=
    reads_map hzones fun key zone j hzone hj =>
      reads_ptr hj fun z j hz hj => reads_zone (hd.zones key zone hzone z hz) hj
  have hwait := decodeInt64_num "time.Duration" hd.shutdownWait.1 hd.shutdownWait.2
  simp [decodeConfigData, decodeStruct, decodeFields, findField, field, ConfigData.zero, hwait,
    hkey', reads_listen, hpeers', hzones', Status.andThen, ConfigData.normal]

/-- **What `SaveJSON` writes, `LoadJSON` reads**, whatever follows it in the file. -/
theorem readConfig_append {d : ConfigData} (hd : d.Formed) {text : List UInt8}
    (h : writeConfig codec d = .ok text) (rest : List UInt8) :
    readConfig codec (text ++ rest) = .ok d.normal := by
  unfold writeConfig at h
  cases hj : encodeConfigData codec d with
  | error e =>
    rw [hj] at h
    cases h
  | ok j =>
    rw [hj] at h
    cases h
    have hread := reads_configData hcodec hd hj
    obtain ⟨_, -, hj⟩ := exists_of_bind hj
    obtain ⟨_, -, hj⟩ := exists_of_bind hj
    obtain ⟨_, -, hj⟩ := exists_of_bind hj
    cases hj
    unfold readConfig
    rw [List.append_assoc, parseFirst_render]
    dsimp only
    rw [hread]

end Lawful

/-! ## What is read is well formed -/

/-- An address that can be written. -/
def WritableIP (ip : IP) : Prop := ip.length = 0 ∨ ip.length = 16

/-- A key that was read. -/
def KeyCodec.Known (codec : KeyCodec) (key : JSONWebKey) : Prop := ∃ j, codec.unmarshal j = .ok key

structure Peer.Writable (codec : KeyCodec) (p : Peer) : Prop where
  ips : ∀ ip ∈ p.ips.elems, WritableIP ip
  key : ∀ key, p.key = some key → codec.Known key

/-- Every address and every key of the configuration can be written. -/
structure ConfigData.Writable (codec : KeyCodec) (d : ConfigData) : Prop where
  authKey : ∀ key, d.authKey = some key → codec.Known key
  peers : ∀ p ∈ d.peers.elems, ∀ peer, p = some peer → peer.Writable codec

theorem yields_IP : Yields decodeIP WritableIP := by
  intro j ip hip hok
  cases j with
  | null => exact Or.inl rfl
  | str s =>
    rw [decodeIP] at hok ⊢
    split
    next => exact Or.inl rfl
    next hs =>
      rw [if_neg hs] at hok
      cases hparse : parseIP s with
      | none =>
        rw [hparse] at hok
        cases hok
      | some bytes => exact Or.inr (length_parseIP hparse)
  | _ => cases hok

theorem yields_SOA : Yields decodeSOA SOA.Formed := by
  apply yields_struct
  intro f hf
  simp only [List.mem_cons, List.not_mem_nil, or_false] at hf
  rcases hf with rfl | rfl | rfl | rfl | rfl | rfl | rfl
  · exact yields_field (yields_trivial _) (fun _ _ => trivial) fun _ _ h _ => ⟨h.1, h.2, h.3, h.4, h.5⟩
  · exact yields_field (yields_trivial _) (fun _ _ => trivial) fun _ _ h _ => ⟨h.1, h.2, h.3, h.4, h.5⟩
  · exact yields_field yields_uint32 (fun _ h => h.1) fun _ _ h hv => ⟨hv, h.2, h.3, h.4, h.5⟩
  · exact yields_field yields_uint32 (fun _ h => h.2) fun _ _ h hv => ⟨h.1, hv, h.3, h.4, h.5⟩
  · exact yields_field yields_uint32 (fun _ h => h.3) fun _ _ h hv => ⟨h.1, h.2, hv, h.4, h.5⟩
  · exact yields_field yields_uint32 (fun _ h => h.4) fun _ _ h hv => ⟨h.1, h.2, h.3, hv, h.5⟩
  · exact yields_field yields_uint32 (fun _ h => h.5) fun _ _ h hv => ⟨h.1, h.2, h.3, h.4, hv⟩

theorem yields_NS : Yields decodeNS fun ns => ns.ttl < 2 ^ 32 := by
  apply yields_struct
  intro f hf
  simp only [List.mem_cons, List.not_mem_nil, or_false] at hf
  rcases hf with rfl | rfl
  · exact yields_field (yields_trivial _) (fun _ _ => trivial) fun _ _ h _ => h
  · exact yields_field yields_uint32 (fun _ h => h) fun _ _ _ hv => hv

/-- The types that are read are known by their texts. -/
theorem ofString_text_ofString (s : String) :
    RecordType.ofString (RecordType.ofString s).text = RecordType.ofString s := by
  by_cases ha : s = "A"
  · rw [ha]
    rfl
  · by_cases hlb : s = "LB"
    · rw [hlb]
      rfl
    · have hs : RecordType.ofString s = .other s := by rw [RecordType.ofString, if_neg ha, if_neg hlb]
      rw [hs]
      exact hs

theorem yields_recordType :
    Yields decodeRecordType fun t => RecordType.ofString t.text = t := by
  intro j t ht hok
  cases j with
  | null => exact ht
  | str s => exact ofString_text_ofString s
  | _ => cases hok

theorem yields_record : Yields decodeRecord Record.Formed := by
  apply yields_struct
  intro f hf
  simp only [List.mem_cons, List.not_mem_nil, or_false] at hf
  rcases hf with rfl | rfl | rfl
  · exact yields_field yields_recordType (fun _ h => h.type) fun _ _ h hv => ⟨hv, h.literal⟩
  · exact yields_field (yields_trivial _) (fun _ _ => trivial) fun _ _ h _ => ⟨h.type, h.literal⟩
  · exact yields_field yields_anyMap (fun _ h => h.literal) fun _ _ h hv => ⟨h.type, hv⟩

theorem formed_newRecord : Record.Formed ⟨.other "", "", none, none⟩ where
  type := rfl
  literal := by
    intro _ h
    cases h

theorem formed_newZone : Zone.Formed ⟨none, none, none⟩ := by
  refine ⟨?_, ?_, ?_⟩
  all_goals
    intro _ h
    cases h

theorem yields_zone : Yields decodeZone Zone.Formed := by
  have hsoa := yields_ptr (yields_SOA.yieldsFrom
    ⟨"", "", 0, 0, 0, 0, 0⟩ ⟨by decide, by decide, by decide, by decide, by decide⟩)
  have hns := yields_ptr (yields_NS.yieldsFrom ⟨[], 0⟩ (by decide))
  have hrecords := yields_slice ((yields_ptr (yields_record.yieldsFrom _ formed_newRecord)).yieldsFrom
    none (fun _ h => by cases h))
  apply yields_struct
  intro f hf
  simp only [List.mem_cons, List.not_mem_nil, or_false] at hf
  rcases hf with rfl | rfl | rfl
  · exact yields_field hsoa (fun _ h => h.soa) fun _ _ h hv => ⟨hv, h.ns, h.records⟩
  · exact yields_field hns (fun _ h => h.ns) fun _ _ h hv => ⟨h.soa, hv, h.records⟩
  · exact yields_field hrecords (fun _ h => h.records) fun _ _ h hv => ⟨h.soa, h.ns, hv⟩

section Known

variable (codec : KeyCodec)

/-- A key that is read is a known one, whatever stood there. -/
theorem yields_keyPtr : Yields (decodeKeyPtr codec.unmarshal)
    fun p => ∀ key, p = some key → codec.Known key := by
  apply yields_ptr
  intro j key _ hok
  cases h : codec.unmarshal j with
  | ok decoded =>
    have hkey : decodeKey codec.unmarshal j key = (decoded, .ok) := by rw [decodeKey, h]
    rw [hkey]
    exact ⟨j, h⟩
  | error e =>
    rw [decodeKey, h] at hok
    cases hok

theorem writable_newPeer : Peer.Writable codec ⟨none, "", none⟩ := by
  refine ⟨?_, ?_⟩
  all_goals
    intro _ h
    cases h

theorem yields_peer : Yields (decodePeer codec.unmarshal) (Peer.Writable codec) := by
  have hips := yields_slice (yields_IP.yieldsFrom [] (Or.inl rfl))
  apply yields_struct
  intro f hf
  simp only [List.mem_cons, List.not_mem_nil, or_false] at hf
  rcases hf with rfl | rfl | rfl
  · exact yields_field hips (fun _ h => h.ips) fun _ _ h hv => ⟨hv, h.key⟩
  · exact yields_field (yields_trivial _) (fun _ _ => trivial) fun _ _ h _ => ⟨h.ips, h.key⟩
  · exact yields_field (yields_keyPtr codec) (fun _ h => h.key) fun _ _ h hv => ⟨h.ips, hv⟩

/-- **What decoding a configuration yields.** -/
theorem yields_configData : Yields (decodeConfigData codec.unmarshal)
    fun d => d.Formed ∧ d.Writable codec := by
  have hpeer := yields_ptr ((yields_peer codec).yieldsFrom _ (writable_newPeer codec))
  have hpeers := yields_slice (hpeer.yieldsFrom none (fun _ h => by cases h))
  have hzone := yields_ptr (yields_zone.yieldsFrom _ formed_newZone)
  have hzones := yields_map (hzone.yieldsFrom none (fun _ h => by cases h))
  apply yields_struct
  intro f hf
  simp only [List.mem_cons, List.not_mem_nil, or_false] at hf
  rcases hf with rfl | rfl | rfl | rfl | rfl
  · exact yields_field (yields_int64 _) (fun _ h => h.1.shutdownWait)
      fun _ _ h hv => ⟨⟨hv, h.1.zones⟩, h.2.authKey, h.2.peers⟩
  · exact yields_field (yields_keyPtr codec) (fun _ h => h.2.authKey)
      fun _ _ h hv => ⟨⟨h.1.shutdownWait, h.1.zones⟩, hv, h.2.peers⟩
  · exact yields_field (yields_trivial _) (fun _ _ => trivial)
      fun _ _ h _ => ⟨⟨h.1.shutdownWait, h.1.zones⟩, h.2.authKey, h.2.peers⟩
  · exact yields_field hpeers (fun _ h => h.2.peers)
      fun _ _ h hv => ⟨⟨h.1.shutdownWait, h.1.zones⟩, h.2.authKey, hv⟩
  · exact yields_field hzones (fun _ h => h.1.zones)
      fun _ _ h hv => ⟨⟨h.1.shutdownWait, hv⟩, h.2.authKey, h.2.peers⟩

end Known

/-! ## Texts and configurations -/

/-- The inversion of `LoadJSON`. -/
theorem readConfig_ok {codec : KeyCodec} {text : List UInt8} {d : ConfigData}
    (h : readConfig codec text = .ok d) :
    ∃ j, parseFirst text = .ok j ∧
      decodeConfigData codec.unmarshal j ConfigData.zero = (d, .ok) := by
  unfold readConfig at h
  cases hj : parseFirst text with
  | error e =>
    rw [hj] at h
    cases h
  | ok j =>
    rw [hj] at h
    dsimp only at h
    rcases hd : decodeConfigData codec.unmarshal j ConfigData.zero with ⟨d', st⟩
    rw [hd] at h
    cases st with
    | ok =>
      cases h
      exact ⟨j, rfl, hd⟩
    | saved e => cases h
    | aborted e => cases h

theorem formed_zero (codec : KeyCodec) :
    ConfigData.zero.Formed ∧ ConfigData.zero.Writable codec := by
  refine ⟨⟨⟨by decide, by decide⟩, ?_⟩, ?_, ?_⟩
  · intro key zone hzone
    exact absurd (show (none : Option (Option Zone)) = some zone from hzone) (by simp)
  · intro _ h
    cases h
  · intro _ h
    cases h

/-- **What is read is within the ranges of its types, and can be written.** -/
theorem readConfig_formed {codec : KeyCodec} {text : List UInt8} {d : ConfigData}
    (h : readConfig codec text = .ok d) : d.Formed ∧ d.Writable codec := by
  obtain ⟨j, -, hd⟩ := readConfig_ok h
  have hyields := yields_configData codec j ConfigData.zero (formed_zero codec) (by rw [hd])
  rwa [hd] at hyields

theorem writable_encodeIP {ip : IP} (h : WritableIP ip) : ∃ j, encodeIP ip = .ok j := by
  unfold encodeIP
  rcases h with h | h
  · exact ⟨_, if_pos h⟩
  · exact ⟨_, by rw [if_neg (by omega), if_pos (Or.inr h)]⟩

theorem exists_encodeZone (z : Zone) : ∃ j, encodeZone z = .ok j := by
  obtain ⟨soa, hsoa⟩ : ∃ j, encodePtr (fun soa => .ok (encodeSOA soa)) z.soa = .ok j :=
    exists_encodePtr fun _ _ => ⟨_, rfl⟩
  obtain ⟨ns, hns⟩ : ∃ j, encodePtr (fun ns => .ok (encodeNS ns)) z.ns = .ok j :=
    exists_encodePtr fun _ _ => ⟨_, rfl⟩
  obtain ⟨records, hrecords⟩ :
      ∃ j, encodeSlice (encodePtr fun r => .ok (encodeRecord r)) z.records = .ok j :=
    exists_encodeSlice fun _ _ => exists_encodePtr fun _ _ => ⟨_, rfl⟩
  exact ⟨_, by rw [encodeZone, hsoa, hns, hrecords]; rfl⟩

section Lawful

variable {codec : KeyCodec} (hcodec : codec.Lawful)

include hcodec

theorem exists_encodeKeyPtr {key : Option JSONWebKey} (h : ∀ k, key = some k → codec.Known k) :
    ∃ j, encodePtr codec.marshal key = .ok j :=
  exists_encodePtr fun k hk => (h k hk).elim fun j hj => hcodec.writes k j hj

theorem exists_encodePeer {p : Peer} (h : p.Writable codec) : ∃ j, encodePeer codec p = .ok j := by
  obtain ⟨ips, hips⟩ := exists_encodeSlice fun ip hip => writable_encodeIP (h.ips ip hip)
  obtain ⟨key, hkey⟩ := exists_encodeKeyPtr hcodec h.key
  exact ⟨_, by rw [encodePeer, hips, hkey]; rfl⟩

/-- A configuration that was read can be written. -/
theorem exists_writeConfig {d : ConfigData} (h : d.Writable codec) :
    ∃ text, writeConfig codec d = .ok text := by
  obtain ⟨authKey, hkey⟩ := exists_encodeKeyPtr hcodec h.authKey
  obtain ⟨peers, hpeers⟩ : ∃ j, encodeSlice (encodePtr (encodePeer codec)) d.peers = .ok j :=
    exists_encodeSlice fun p hp => exists_encodePtr fun q hq =>
      exists_encodePeer hcodec (h.peers p hp q hq)
  obtain ⟨zones, hzones⟩ : ∃ j, encodeMap (encodePtr encodeZone) d.zones = .ok j :=
    exists_encodeMap fun _ _ _ => exists_encodePtr fun z _ => exists_encodeZone z
  exact ⟨_, by rw [writeConfig, encodeConfigData, hkey, hpeers, hzones]; rfl⟩

end Lawful

/-! ### Writing the normal form -/

theorem encodeRecord_normal (r : Record) : encodeRecord r.normal = encodeRecord r := by
  unfold encodeRecord Record.normal
  rw [encodeAnyMap_sortedAnyMap]

theorem encodeZone_normal (z : Zone) : encodeZone z.normal = encodeZone z := by
  have hrecords : encodeSlice (encodePtr fun r => .ok (encodeRecord r)) z.normal.records
      = encodeSlice (encodePtr fun r => .ok (encodeRecord r)) z.records :=
    encodeSlice_map (encodePtr_map fun r => by rw [encodeRecord_normal]) z.records
  unfold encodeZone
  rw [hrecords]
  rfl

theorem normalIP_of_writable {ip : IP} (h : WritableIP ip) : normalIP ip = ip := by
  unfold normalIP to16
  rcases h with h | h
  · rw [if_neg (by omega), if_neg (by omega)]
    rfl
  · rw [if_neg (by omega), if_pos h]
    rfl

theorem Peer.normal_of_writable {codec : KeyCodec} {p : Peer} (h : p.Writable codec) :
    p.normal = p := by
  obtain ⟨ips, controlServer, key⟩ := p
  cases ips with
  | none => rfl
  | some ips =>
    have hid : ∀ ip ∈ ips, normalIP ip = ip := fun ip hip => normalIP_of_writable (h.ips ip hip)
    have hips : ips.map normalIP = ips := by rw [List.map_congr_left hid, List.map_id']
    show Peer.mk (some (ips.map normalIP)) controlServer key = _
    rw [hips]

/-- The peers that were read are in normal form. -/
theorem normal_peers {codec : KeyCodec} {d : ConfigData} (h : d.Writable codec) :
    d.normal.peers = d.peers := by
  cases hpeers : d.peers with
  | none =>
    show d.peers.map _ = none
    rw [hpeers]
    rfl
  | some peers =>
    have hmap : peers.map (Option.map Peer.normal) = peers := by
      have hid : ∀ p ∈ peers, Option.map Peer.normal p = p := by
        intro p hp
        cases p with
        | none => rfl
        | some q =>
          have hq := h.peers (some q) (by rw [hpeers]; exact hp) q rfl
          rw [Option.map_some, Peer.normal_of_writable hq]
      rw [List.map_congr_left hid, List.map_id']
    show d.peers.map _ = some peers
    rw [hpeers, Option.map_some, hmap]

/-- Writing the normal form of what was read gives the same bytes. -/
theorem writeConfig_normal {codec : KeyCodec} {d : ConfigData} (h : d.Writable codec) :
    writeConfig codec d.normal = writeConfig codec d := by
  have hzones : encodeMap (encodePtr encodeZone) d.normal.zones
      = encodeMap (encodePtr encodeZone) d.zones :=
    encodeMap_mapValues (encodePtr_map encodeZone_normal) d.zones
  unfold writeConfig encodeConfigData
  rw [normal_peers h, hzones]
  rfl

/-- **A configuration that was read from a text can be written, and what is written is read back.**
For every text that `LoadJSON` accepts, `SaveJSON` writes the configuration, and whatever follows it
in the file, `LoadJSON` reads it back: all fields are the same, but for the converted values, which
are not written, and the order of the keys in the literals of the records.  Writing it once more
gives the same bytes.  (Numbers in literals are as in `Json.toAny` and `renderNumber`: the bytes are
those of Go when they are integers up to `2 ^ 53`.) -/
theorem config_text_roundtrip {codec : KeyCodec} (hcodec : codec.Lawful) {text : List UInt8}
    {d : ConfigData} (h : readConfig codec text = .ok d) :
    ∃ text', writeConfig codec d = .ok text' ∧
      (∀ rest, readConfig codec (text' ++ rest)
        = .ok { d with zones := mapValues (Option.map Zone.normal) d.zones }) ∧
      writeConfig codec { d with zones := mapValues (Option.map Zone.normal) d.zones }
        = .ok text' := by
  obtain ⟨hformed, hwritable⟩ := readConfig_formed h
  obtain ⟨text', htext⟩ := exists_writeConfig hcodec hwritable
  have hnormal : d.normal = { d with zones := mapValues (Option.map Zone.normal) d.zones } := by
    rw [← normal_peers hwritable]
    rfl
  rw [← hnormal, writeConfig_normal hwritable]
  exact ⟨text', htext, fun rest => readConfig_append hcodec hformed htext rest, htext⟩

/-- Symmetric keys with the members of their JWKs. -/
def octCodec : KeyCodec where
  marshal key := .ok (.obj [("kty", .str "oct"), ("kid", .str key.keyID), ("alg", .str key.algorithm),
    ("k", encodeBytes key.key)])
  unmarshal
    | .obj [("kty", .str "oct"), ("kid", .str kid), ("alg", .str alg), ("k", .str k)] =>
      match base64Decode k with
      | some key => .ok ⟨key, kid, alg⟩
      | none => .error "go-jose/go-jose: invalid key"
    | _ => .error "go-jose/go-jose: unknown json web key type"

theorem lawful_octCodec : octCodec.Lawful where
  reads key j h := by
    cases h
    refine ⟨by simp, ?_⟩
    simp only [octCodec, encodeBytes, base64Decode_base64Encode]
  writes _ _ _ := ⟨_, rfl⟩

/-- A peer with an address, and a zone with a record whose literal has its keys out of order. -/
def sampleData : ConfigData where
  shutdownWait := 1000000000
  authKey := some ⟨[1, 2, 3], "auth", "A256KW"⟩
  listen := ⟨":53", ":5309"⟩
  peers := some [some ⟨some [[0, 0, 0, 0, 0, 0, 0, 0, 0, 0, 255, 255, 127, 0, 0, 1]],
    "127.0.0.1:5309", some ⟨[4], "foo", "A256KW"⟩⟩]
  zones := (∅ : Zones).insert "test.home.arpa." (some ⟨none, some ⟨["test.home.arpa."], 60⟩,
    some [some ⟨.a, "foo.test.home.arpa.",
      some [("ttl", .num 60 0), ("addresses", .arr [.str "127.0.0.1"])], none⟩]⟩)

theorem known_octCodec (key : JSONWebKey) : octCodec.Known key :=
  ⟨_, (lawful_octCodec.reads key _ rfl).2⟩

theorem writable_sampleData : sampleData.Writable octCodec where
  authKey key _ := known_octCodec key
  peers p hp peer h := by
    obtain rfl := List.mem_singleton.mp hp
    cases h
    refine ⟨fun ip hip => ?_, fun key _ => known_octCodec key⟩
    obtain rfl := List.mem_singleton.mp hip
    exact Or.inr rfl

theorem formed_sampleData : sampleData.Formed where
  shutdownWait := by decide
  zones key zone h z hz := by
    have hkey : key = "test.home.arpa." := by
      by_contra hne
      rw [sampleData, Finmap.lookup_insert_of_ne _ hne] at h
      cases h
    subst hkey
    rw [sampleData, Finmap.lookup_insert] at h
    cases h
    cases hz
    refine ⟨fun _ h => (by cases h), fun ns h => ?_, fun r hr rec h => ?_⟩
    · cases h
      decide
    · obtain rfl := List.mem_singleton.mp hr
      cases h
      refine ⟨rfl, fun fields h => ?_⟩
      cases h
      simp [Json.Keyed, Json.KeyedFields, Json.KeyedItems]

/-- The text that is written for the sample is read back and written again. -/
theorem config_text_roundtrip_sampleData :
    ∃ text d, readConfig octCodec text = .ok d ∧ d.peers = sampleData.peers ∧
      ∃ text', writeConfig octCodec d = .ok text' ∧
        (∀ rest, readConfig octCodec (text' ++ rest)
          = .ok { d with zones := mapValues (Option.map Zone.normal) d.zones }) ∧
        writeConfig octCodec { d with zones := mapValues (Option.map Zone.normal) d.zones }
          = .ok text' := by
  obtain ⟨text, htext⟩ := exists_writeConfig lawful_octCodec writable_sampleData
  have hread := readConfig_append lawful_octCodec formed_sampleData htext []
  exact ⟨text ++ [], sampleData.normal, hread, normal_peers writable_sampleData,
    config_text_roundtrip lawful_octCodec hread⟩

end Border
