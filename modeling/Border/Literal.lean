/-
# From literals to record values

Model of `pkg/config/literal.go` and of `convertLiterals`: the `value` of a record in the
configuration is a JSON object, and loading turns it into an `ARecord` or an `LBRecord`.
`typeAssert` walks the type of a field and the literal side by side; there is one
definition here for each type of a field it is used with, and what the reflection calls
panic on is kept.

Inside a struct the code follows the type of the literal and not that of the field, and
compares a key with the whole tag, `,optional` included.

`convertLiterals_export` says what a conversion that succeeds can change of the part of
a configuration that is saved: the TTL of an NS entry that had none.
-/
import Border.Config

namespace Border

open GoJson GoMap NetAddr

/-! ## Literals and their Go types -/

/-- What `typeAssert` is given as a literal: a decoded value, or a byte of a text that
is indexed like a list. -/
inductive Literal
  | json (j : Json)
  | byte (b : UInt8)

/-- The `%T` of a literal. -/
def Literal.goType : Literal → String
  | .json .null => "<nil>"
  | .json (.bool _) => "bool"
  | .json (.num _ _) => "float64"
  | .json (.str _) => "string"
  | .json (.arr _) => "[]interface \x7b\x7d"
  | .json (.obj _) => "map[string]interface \x7b\x7d"
  | .byte _ => "uint8"

/-- A failed type assertion on a literal. -/
def conversionPanic (lit : Literal) (type : String) : Failure :=
  .panic ("interface conversion: interface \x7b\x7d is "
    ++ (match lit with | .json .null => "nil" | lit => lit.goType) ++ ", not " ++ type)

/-- `reflect.Value.Set` with a value of another type. -/
def notAssignable (lit : Literal) (type : String) : Failure :=
  .panic ("reflect.Set: value of type " ++ lit.goType ++ " is not assignable to type " ++ type)

/-- The zero value and kinds without the method that is called on them. -/
def reflectPanic (method kind : String) : Failure :=
  .panic ("reflect: call of reflect.Value." ++ method ++ " on " ++ kind ++ " Value")

/-- `reflect.MakeMap` of a field that is no map. -/
def makeMapPanic : Failure := .panic "reflect.MakeMapWithSize of non-map type"

/-- The bytes of a text. -/
def textBytes (s : String) : List UInt8 := s.toUTF8.data.toList

/-! ## The branches of `typeAssert` -/

/-- The branch for arrays and slices, over what it does with an element. -/
def typeAssertSlice {α : Type} (elem : Literal → Except Failure α) :
    Json → Except Failure (List α)
  | .null => .error nilDereference
  | .arr items => (items.map Literal.json).mapM elem
  | .str s => ((textBytes s).map Literal.byte).mapM elem
  | j => .error (.error ("literal is " ++ (Literal.json j).goType
      ++ ", value is array or slice; data mismatch"))

/-- A `net.IP`: a text that is no address leaves the nil address. -/
def typeAssertIP : Literal → Except Failure IP
  | .json (.str s) => .ok ((parseIP s).getD [])
  | .json .null => .error nilDereference
  | .json (.arr []) => .ok []
  | .json (.arr (j :: _)) => .error (conversionPanic (.json j) "uint8")
  | lit => .error (.error ("literal is " ++ lit.goType ++ ", value is array or slice; data mismatch"))

/-- A `string`. -/
def typeAssertString : Literal → Except Failure String
  | .json (.str s) => .ok s
  | .json .null => .error (reflectPanic "Set" "zero")
  | lit => .error (notAssignable lit "string")

/-- The conversion of a `float64` to an `int`, for a number within the range of an `int`.  The
number stands for the `float64` that was decoded, with the value that was written: the two are equal
for integers up to `2 ^ 53`. -/
def truncate (mantissa exponent : ℤ) : ℤ :=
  if 0 ≤ exponent then mantissa * 10 ^ exponent.toNat
  else mantissa.tdiv (10 ^ (-exponent).toNat)

/-- An `int`. -/
def typeAssertInt : Json → Except Failure ℤ
  | .num m e => .ok (truncate m e)
  | j => .error (conversionPanic (.json j) "int")

/-- A `uint32`: the code asserts that very type, and no decoded value has it. -/
def typeAssertUint32 (j : Json) : Except Failure ℕ :=
  .error (conversionPanic (.json j) "uint32")

section

variable (parseDuration : String → Except String ℤ)

/-- A `time.Duration`, which is written as a text. -/
def typeAssertDuration : Json → Except Failure ℤ
  | .str s =>
    match parseDuration s with
    | .ok d => .ok d
    | .error e => .error (.error e)
  | j => .error (conversionPanic (.json j) "int64")

/-- The branch for structs, over what it does with a key of the literal. -/
def typeAssertStruct {σ : Type} (assign : String → Json → σ → Except Failure σ) (zero : σ) :
    Literal → Except Failure σ
  | .json (.obj fields) => fields.foldlM (fun s kv => assign kv.1 kv.2 s) zero
  | lit => .error (.error ("literal was expected to be map[string]any but is " ++ lit.goType))

/-- A `[]byte` field of a struct. -/
def typeAssertBytes : Json → Except Failure (List UInt8)
  | .str s => .ok (textBytes s)
  | .null => .error nilDereference
  | .arr [] => .ok []
  | .arr (j :: _) => .error (conversionPanic (.json j) "uint8")
  | .obj _ => .error makeMapPanic
  | j => .error (notAssignable (.json j) "[]uint8")

/-- A key that names no field leaves the zero `reflect.Value` to be set. -/
def typeAssertNoField {σ : Type} (s : σ) : Json → Except Failure σ
  | .null => .error nilDereference
  | .arr _ => .error (reflectPanic "Interface" "zero")
  | .obj _ => .error (reflectPanic "IsZero" "zero")
  | _ => .ok s

/-- A key of the `tls` object. -/
def assignTLS (key : String) (j : Json) (tls : TLSLB) : Except Failure TLSLB :=
  if key = "ca_certificate,optional" then
    (typeAssertBytes j).map fun b => { tls with caCertificate := b }
  else if key = "certificate" then
    (typeAssertBytes j).map fun b => { tls with certificate := b }
  else if key = "key" then
    (typeAssertBytes j).map fun b => { tls with key := b }
  else typeAssertNoField tls j

/-- A scalar field of a struct: a null, a list or an object in its place panics on the
way to the assignment. -/
def typeAssertScalar {α : Type} (listPanic : Failure) (assert : Json → Except Failure α) :
    Json → Except Failure α
  | .null => .error nilDereference
  | .arr _ => .error listPanic
  | .obj _ => .error makeMapPanic
  | j => assert j

/-- A key of an object of a `healthcheck` list. -/
def assignHealthCheck (key : String) (j : Json) (hc : HealthCheck) : Except Failure HealthCheck :=
  if key = "name,optional" then
    (typeAssertScalar (reflectPanic "Grow" "string") (fun j => typeAssertString (.json j)) j).map
      fun s => { hc with name := s }
  else if key = "type,optional" then
    (typeAssertScalar (reflectPanic "Grow" "string") (fun j => typeAssertString (.json j)) j).map
      fun s => { hc with type := .ofString s }
  else if key = "timeout" then
    (typeAssertScalar (reflectPanic "Len" "int64") (typeAssertDuration parseDuration) j).map
      fun d => { hc with timeout := d }
  else if key = "failures" then
    (typeAssertScalar (reflectPanic "Len" "int") typeAssertInt j).map
      fun n => { hc with failures := n }
  else
    -- the last field of the struct, `failed`, has no tag
    .error (.error ("Inner struct map[string]interface \x7b\x7d for " ++ quoted key
      ++ " field did not have record tag"))

/-- A `[]*HealthCheck`. -/
def typeAssertHealthChecks : Json → Except Failure (List HealthCheck) :=
  typeAssertSlice (typeAssertStruct (assignHealthCheck parseDuration)
    ⟨"", .ofString "", 0, 0, "", false⟩)

/-! ## `parseLiteral` -/

/-- One field of the loop of `parseLiteral`. -/
def literalField {σ α : Type} (literal : List (String × Json)) (tag : String) (optional : Bool)
    (assert : Json → Except Failure α) (set : σ → α → σ) (s : σ) : Except Failure σ :=
  match literal.lookup tag with
  | none =>
    if optional then .ok s
    else .error (.error ("Could not find required literal value in config: " ++ tag))
  | some j =>
    match assert j with
    | .ok a => .ok (set s a)
    | .error e => .error (e.wrap ("Error while converting literal " ++ quoted tag ++ ": "))

/-- `parseLiteral` of an A record. -/
def parseA (literal : List (String × Json)) (a : ARecord) : Except Failure ARecord := do
  let a ← literalField literal "addresses" false (typeAssertSlice typeAssertIP)
    (fun a v => { a with addresses := v }) a
  let a ← literalField literal "ttl" true typeAssertUint32 (fun a v => { a with ttl := v }) a
  literalField literal "healthcheck" true (typeAssertHealthChecks parseDuration)
    (fun a v => { a with healthCheck := v }) a

/-- `parseLiteral` of an LB record. -/
def parseLB (literal : List (String × Json)) (lb : LBRecord) : Except Failure LBRecord := do
  let lb ← literalField literal "listeners" false (typeAssertSlice typeAssertString)
    (fun lb v => { lb with listeners := v }) lb
  let lb ← literalField literal "kind" false (fun j => typeAssertString (.json j))
    (fun lb v => { lb with kind := v }) lb
  let lb ← literalField literal "backends" false (typeAssertSlice typeAssertString)
    (fun lb v => { lb with backends := v }) lb
  let lb ← literalField literal "simultaneous_connections" true typeAssertInt
    (fun lb v => { lb with simultaneousConnections := v }) lb
  let lb ← literalField literal "max_connections_per_address" true typeAssertInt
    (fun lb v => { lb with maxConnectionsPerAddress := v }) lb
  let lb ← literalField literal "connection_timeout" true (typeAssertDuration parseDuration)
    (fun lb v => { lb with connectionTimeout := v }) lb
  let lb ← literalField literal "ttl" true typeAssertUint32 (fun lb v => { lb with ttl := v }) lb
  let lb ← literalField literal "tls" true
    (fun j => typeAssertStruct assignTLS ⟨[], [], []⟩ (.json j))
    (fun lb v => { lb with tls := some v }) lb
  literalField literal "healthcheck" true (typeAssertHealthChecks parseDuration)
    (fun lb v => { lb with healthCheck := v }) lb

/-! ## `convertLiterals` -/

/-- The error of `parseLiteral`, with the name of the record. -/
def recordError {α : Type} (name : String) : Except Failure α → Except Failure α
  | .error (.error e) => .error (.error ("Error parsing record " ++ quoted name ++ ": " ++ e))
  | r => r

/-- The value a record is given, with the defaults of its type. -/
def convertRecord (soa : Option SOA) (r : Record) : Except Failure Record :=
  match r.type, soa with
  | .other _, _ => .error (.error ("invalid type for record " ++ quoted r.name))
  | _, none => .error nilDereference
  | .a, some soa =>
    (recordError r.name (parseA parseDuration (r.literalValue.getD []) ⟨[], soa.minTTL, []⟩)).map
      fun a => { r with value := some (.a a) }
  | .lb, some soa =>
    (recordError r.name (parseLB parseDuration (r.literalValue.getD [])
      { listeners := [], kind := "", backends := [], ttl := soa.minTTL
        simultaneousConnections := defaultSimultaneousConnections
        maxConnectionsPerAddress := defaultMaxConnectionsPerAddress
        connectionTimeout := 0, tls := none, healthCheck := [] })).map
      fun lb => { r with value := some (.lb lb) }

/-- The records of a zone. -/
def convertRecords (soa : Option SOA) : List (Option Record) → Except Failure (List (Option Record))
  | [] => .ok []
  | none :: _ => .error nilDereference
  | some r :: rest => do
    let r' ← convertRecord parseDuration soa r
    let rest' ← convertRecords soa rest
    .ok (some r' :: rest')

/-- The TTL of an NS entry without one is the minimal TTL of the zone. -/
def defaultTTL (soa : Option SOA) (ns : NS) : Except Failure NS :=
  if ns.ttl = 0 then
    match soa with
    | none => .error nilDereference
    | some soa => .ok { ns with ttl := soa.minTTL }
  else .ok ns

/-- One zone. -/
def convertZone : Option Zone → Except Failure (Option Zone)
  | none => .error nilDereference
  | some z =>
    match z.ns with
    | none => .error nilDereference
    | some ns => do
      let ns' ← defaultTTL z.soa ns
      let records ← convertRecords parseDuration z.soa z.records.elems
      .ok (some { z with ns := some ns', records := z.records.map fun _ => records })

/-- The loop over the given keys. -/
def convertZones : List String → Zones → Except Failure Zones
  | [], zones => .ok zones
  | key :: keys, zones =>
    match zones.lookup key with
    | none => convertZones keys zones
    | some zone => do
      let zone' ← convertZone parseDuration zone
      convertZones keys (zones.insert key zone')

/-- `Config.convertLiterals`. -/
def convertLiterals (order : RangeOrder String (Option Zone)) (zones : Zones) :
    Except Failure Zones :=
  convertZones parseDuration (order.keys zones) zones

/-! ## What a conversion changes -/

/-- An NS entry with the TTL it is given when it has none. -/
def NS.withDefaultTTL (minTTL : ℕ) (ns : NS) : NS :=
  if ns.ttl = 0 then { ns with ttl := minTTL } else ns

/-- The minimal TTL of a zone. -/
def Zone.minTTL (z : Zone) : ℕ := (z.soa.map SOA.minTTL).getD 0

/-- A zone with the TTL its NS entry is given. -/
def Zone.withDefaultTTL (z : Zone) : Zone :=
  { z with ns := z.ns.map (NS.withDefaultTTL z.minTTL) }

variable {parseDuration}

theorem convertRecord_export {soa : Option SOA} {r r' : Record}
    (h : convertRecord parseDuration soa r = .ok r') : r'.exported = r.exported := by
  unfold convertRecord at h
  split at h
  · exact absurd h (by simp)
  · exact absurd h (by simp)
  · obtain ⟨a, -, rfl⟩ := map_ok h
    rfl
  · obtain ⟨lb, -, rfl⟩ := map_ok h
    rfl

theorem convertRecords_export {soa : Option SOA} {rs rs' : List (Option Record)}
    (h : convertRecords parseDuration soa rs = .ok rs') :
    rs'.map (Option.map Record.exported) = rs.map (Option.map Record.exported) := by
  induction rs generalizing rs' with
  | nil =>
    rw [← Except.ok.inj h]
  | cons r rs ih =>
    cases r with
    | none => exact absurd h (by simp [convertRecords])
    | some r =>
      obtain ⟨r', hr, h⟩ := bind_ok h
      obtain ⟨rest, hrest, h⟩ := bind_ok h
      rw [← Except.ok.inj h, List.map_cons, List.map_cons, ih hrest, Option.map_some,
        Option.map_some, convertRecord_export hr]

theorem defaultTTL_eq {soa : Option SOA} {ns ns' : NS} (h : defaultTTL soa ns = .ok ns') :
    ns' = ns.withDefaultTTL ((soa.map SOA.minTTL).getD 0) := by
  unfold defaultTTL at h
  unfold NS.withDefaultTTL
  split_ifs at h ⊢ with hzero
  · cases soa with
    | none => exact absurd h (by simp)
    | some soa => exact (Except.ok.inj h).symm
  · exact (Except.ok.inj h).symm

/-- The inversion of the conversion of a zone. -/
theorem convertZone_ok {zone zone' : Option Zone} (h : convertZone parseDuration zone = .ok zone') :
    ∃ z ns ns' records, zone = some z ∧ z.ns = some ns ∧ defaultTTL z.soa ns = .ok ns' ∧
      convertRecords parseDuration z.soa z.records.elems = .ok records ∧
      zone' = some { z with ns := some ns', records := z.records.map fun _ => records } := by
  cases zone with
  | none => exact absurd h (by simp [convertZone])
  | some z =>
    unfold convertZone at h
    cases hns : z.ns with
    | none =>
      simp only [hns] at h
      exact absurd h (by simp)
    | some ns =>
      simp only [hns] at h
      obtain ⟨ns', hns', h⟩ := bind_ok h
      obtain ⟨records, hrecords, h⟩ := bind_ok h
      exact ⟨z, ns, ns', records, rfl, hns, hns', hrecords, (Except.ok.inj h).symm⟩

theorem convertZone_export {zone zone' : Option Zone}
    (h : convertZone parseDuration zone = .ok zone') :
    zone'.map Zone.exported = zone.map fun z => z.withDefaultTTL.exported := by
  obtain ⟨z, ns, ns', records, rfl, hns, hdefault, hrecords, rfl⟩ := convertZone_ok h
  have hexport := convertRecords_export hrecords
  obtain ⟨soa, _, rs⟩ := z
  obtain rfl : _ = some ns := hns
  rw [defaultTTL_eq hdefault]
  cases rs with
  | none => rfl
  | some rs =>
    simp only [Option.map_some, Zone.exported, Zone.withDefaultTTL, Zone.minTTL, Slice.elems,
      Option.getD_some] at hexport ⊢
    rw [hexport]

/-- What stands under a key after the loop over the given keys: what stood there, converted if
the key is one of them. -/
theorem lookup_convertZones {keys : List String} {zones zones' : Zones} (hnodup : keys.Nodup)
    (h : convertZones parseDuration keys zones = .ok zones') (key : String) :
    Option.Rel (fun zone zone' =>
      if key ∈ keys then convertZone parseDuration zone = .ok zone' else zone' = zone)
      (zones.lookup key) (zones'.lookup key) := by
  induction keys generalizing zones with
  | nil =>
    rw [← Except.ok.inj h]
    cases zones.lookup key with
    | none => exact .none
    | some zone => exact .some (by simp)
  | cons k keys ih =>
    obtain ⟨hk, htail⟩ := List.nodup_cons.mp hnodup
    rw [convertZones] at h
    cases hlookup : zones.lookup k with
    | none =>
      simp only [hlookup] at h
      have hrest := ih htail h
      by_cases hkey : key = k
      · subst hkey
        rw [hlookup] at hrest ⊢
        generalize zones'.lookup key = found at hrest ⊢
        cases hrest with
        | none => exact .none
      · simpa [hkey] using hrest
    | some zone =>
      simp only [hlookup] at h
      obtain ⟨zone₁, hzone, h⟩ := bind_ok h
      have hrest := ih htail h
      by_cases hkey : key = k
      · -- the order has no key twice, so the zone is converted once
        subst hkey
        rw [Finmap.lookup_insert] at hrest
        rw [hlookup]
        generalize zones'.lookup key = found at hrest ⊢
        cases hrest with
        | some hsame =>
          rw [if_neg hk] at hsame
          rw [hsame]
          exact .some (by simpa using hzone)
      · have hother : (zones.insert k zone₁).lookup key = zones.lookup key :=
          Finmap.lookup_insert_of_ne zones hkey
        rw [hother] at hrest
        simpa [hkey] using hrest

theorem convertLiterals_rel {order : RangeOrder String (Option Zone)} {zones zones' : Zones}
    (h : convertLiterals parseDuration order zones = .ok zones') (key : String) :
    Option.Rel (fun zone zone' => convertZone parseDuration zone = .ok zone')
      (zones.lookup key) (zones'.lookup key) := by
  have hrel := lookup_convertZones (order.nodup zones) h key
  cases hlookup : zones.lookup key with
  | none =>
    rw [hlookup] at hrel
    generalize zones'.lookup key = found at hrel ⊢
    cases hrel with
    | none => exact .none
  | some zone =>
    have hmem : key ∈ order.keys zones :=
      (order.mem_keys zones key).mpr (Finmap.mem_of_lookup_eq_some hlookup)
    simpa only [hlookup, if_pos hmem] using hrel

/-- Where a converted zone comes from. -/
theorem lookup_convertLiterals {order : RangeOrder String (Option Zone)} {zones zones' : Zones}
    (h : convertLiterals parseDuration order zones = .ok zones') {key : String}
    {zone' : Option Zone} (hz : zones'.lookup key = some zone') :
    ∃ zone, zones.lookup key = some zone ∧ convertZone parseDuration zone = .ok zone' := by
  have hrel := convertLiterals_rel h key
  rw [hz] at hrel
  generalize zones.lookup key = found at hrel
  cases hrel with
  | some hconverted => exact ⟨_, rfl, hconverted⟩

/-- **A conversion that succeeds changes nothing that is saved**, apart from the TTL of
an NS entry that had none. -/
theorem convertLiterals_export {order : RangeOrder String (Option Zone)} {zones zones' : Zones}
    (h : convertLiterals parseDuration order zones = .ok zones') (key : String) :
    (zones'.lookup key).map (Option.map Zone.exported) =
      (zones.lookup key).map (Option.map fun z => z.withDefaultTTL.exported) := by
  have hrel := convertLiterals_rel h key
  generalize zones.lookup key = found, zones'.lookup key = found' at hrel ⊢
  cases hrel with
  | some hconverted => exact congrArg some (convertZone_export hconverted)
  | none => rfl

theorem exists_of_convertRecords {soa : Option SOA} {rs rs' : List (Option Record)}
    (h : convertRecords parseDuration soa rs = .ok rs') {r' : Option Record} (hr' : r' ∈ rs') :
    ∃ rec rec', r' = some rec' ∧ convertRecord parseDuration soa rec = .ok rec' := by
  induction rs generalizing rs' with
  | nil =>
    rw [← Except.ok.inj h] at hr'
    exact absurd hr' List.not_mem_nil
  | cons r rs ih =>
    cases r with
    | none => exact absurd h (by simp [convertRecords])
    | some rec =>
      obtain ⟨rec', hrec, h⟩ := bind_ok h
      obtain ⟨rest, hrest, h⟩ := bind_ok h
      rw [← Except.ok.inj h] at hr'
      rcases List.mem_cons.mp hr' with rfl | hr'
      · exact ⟨rec, rec', rfl, hrec⟩
      · exact ih hrest hr'

end

end Border
