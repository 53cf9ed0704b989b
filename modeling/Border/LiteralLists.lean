/-
# The lists in the literal of an A record

The health checks of a record are pointers.  Here `typeAssert` (`pkg/config/literal.go`) allocates
the objects of a `healthcheck` list one by one and sets their fields through the pointers, and
`parseAObjects_eq` says that the conversion on values, `parseA`, is what it comes to: an object of
its own for each element.

`parseLiteral_lists_iff` : a literal that lists addresses and health checks as it should is
converted element by element, with the TTL of the zone, exactly when it has no `ttl` of its own.
One that has panics.
-/
import Border.ObjectHeap
import Border.RecordTags

namespace Border

open GoJson NetAddr ObjectHeap

/-! ## Health checks as objects -/

section Objects

variable (parseDuration : String → Except String ℤ)

/-- An element of a `[]*HealthCheck`: its nil pointer is set to a new object, and the keys of the
literal are assigned through it. -/
def typeAssertCheckObject : Literal → List HealthCheck → Except Failure (List HealthCheck × ℕ)
  | .json (.obj fields), heap =>
    build nilDereference (fun kv hc => assignHealthCheck parseDuration kv.1 kv.2 hc)
      zeroHealthCheck fields heap
  | lit, _ =>
    .error (.error ("literal was expected to be map[string]any but is " ++ lit.goType))

/-- A `[]*HealthCheck`, with the objects in the heap. -/
def typeAssertCheckObjects (heap : List HealthCheck) :
    Json → Except Failure (List HealthCheck × List ℕ)
  | .null => .error nilDereference
  | .arr items => buildEach (typeAssertCheckObject parseDuration) (items.map Literal.json) heap
  | .str s => buildEach (typeAssertCheckObject parseDuration) ((textBytes s).map Literal.byte) heap
  | j => .error (.error ("literal is " ++ (Literal.json j).goType
      ++ ", value is array or slice; data mismatch"))

/-- `dnsconfig.A`, with the heap that its health checks point into. -/
structure AObjects where
  heap : List HealthCheck
  addresses : List IP
  ttl : ℕ
  healthCheck : List ℕ

/-- `parseLiteral` of an A record. -/
def parseAObjects (literal : List (String × Json)) (a : AObjects) : Except Failure AObjects := do
  let a ← literalField literal "addresses" false (typeAssertSlice typeAssertIP)
    (fun a v => { a with addresses := v }) a
  let a ← literalField literal "ttl" true typeAssertUint32 (fun a v => { a with ttl := v }) a
  literalField literal "healthcheck" true (typeAssertCheckObjects parseDuration a.heap)
    (fun a v => { a with heap := v.1, healthCheck := v.2 }) a

variable {parseDuration}

theorem typeAssertCheckObject_eq (lit : Literal) (heap : List HealthCheck) :
    typeAssertCheckObject parseDuration lit heap
      = (typeAssertStruct (assignHealthCheck parseDuration) zeroHealthCheck lit).map
          fun hc => (heap ++ [hc], heap.length) := by
  match lit with
  | .json (.obj fields) =>
    exact build_eq nilDereference (fun kv hc => assignHealthCheck parseDuration kv.1 kv.2 hc)
      zeroHealthCheck fields heap
  | .json .null => rfl
  | .json (.bool _) => rfl
  | .json (.num _ _) => rfl
  | .json (.str _) => rfl
  | .json (.arr _) => rfl
  | .byte _ => rfl

theorem typeAssertCheckObjects_eq (heap : List HealthCheck) (j : Json) :
    typeAssertCheckObjects parseDuration heap j
      = (typeAssertHealthChecks parseDuration j).map
          fun hcs => (heap ++ hcs, List.range' heap.length hcs.length) := by
  match j with
  | .arr items => exact buildEach_eq typeAssertCheckObject_eq (items.map Literal.json) heap
  | .str s => exact buildEach_eq typeAssertCheckObject_eq ((textBytes s).map Literal.byte) heap
  | .null => rfl
  | .bool _ => rfl
  | .num _ _ => rfl
  | .obj _ => rfl

end Objects

/-- A record whose health checks are the last objects of the heap. -/
def ARecord.objects (heap : List HealthCheck) (a : ARecord) : AObjects :=
  ⟨heap ++ a.healthCheck, a.addresses, a.ttl, List.range' heap.length a.healthCheck.length⟩

/-- A field of `parseLiteral` on two views of a value. -/
theorem literalField_map {σ τ α β : Type} {literal : List (String × Json)} {tag : String}
    {optional : Bool} {assert : Json → Except Failure α} {assert' : Json → Except Failure β}
    {set : σ → α → σ} {set' : τ → β → τ} {f : σ → τ} {g : α → β} {s : σ}
    (hassert : ∀ j, assert' j = (assert j).map g) (hset : ∀ v, set' (f s) (g v) = f (set s v)) :
    literalField literal tag optional assert' set' (f s)
      = (literalField literal tag optional assert set s).map f := by
  unfold literalField
  cases literal.lookup tag with
  | none => cases optional <;> rfl
  | some j =>
    dsimp only
    rw [hassert j]
    cases assert j with
    | error e => rfl
    | ok v => exact congrArg Except.ok (hset v)

/-- A call and what is done with its result, on two views of it. -/
theorem bind_map {α β γ δ : Type} {x : Except Failure α} {x' : Except Failure β}
    {k : α → Except Failure γ} {k' : β → Except Failure δ} {f : α → β} {g : γ → δ}
    (hx : x' = x.map f) (hk : ∀ a, x = .ok a → k' (f a) = (k a).map g) :
    (x' >>= k') = (x >>= k).map g := by
  subst hx
  cases x with
  | error e => rfl
  | ok a => exact hk a rfl

/-- **The conversion on objects is the one on values.**  The objects that were there stay, and the
health checks are new ones behind them. -/
theorem parseAObjects_eq {parseDuration : String → Except String ℤ} (heap : List HealthCheck)
    (literal : List (String × Json)) {a : ARecord} (hnew : a.healthCheck = []) :
    parseAObjects parseDuration literal (a.objects heap)
      = (parseA parseDuration literal a).map (ARecord.objects heap) := by
  have hkeeps : ∀ j : Json, typeAssertSlice typeAssertIP j
      = (typeAssertSlice typeAssertIP j).map id := by
    intro j
    cases typeAssertSlice typeAssertIP j <;> rfl
  have hkeepsTTL : ∀ j : Json, typeAssertUint32 j = (typeAssertUint32 j).map id := fun _ => rfl
  refine bind_map (literalField_map hkeeps fun v => rfl) fun a₁ h₁ => ?_
  refine bind_map (literalField_map hkeepsTTL fun v => rfl) fun a₂ h₂ => ?_
  -- no field but the last one touches the health checks
  have hnone : a₂.healthCheck = [] := by
    have hfirst : a₁.healthCheck = a.healthCheck := by
      rcases literalField_ok h₁ with ⟨-, -, rfl⟩ | ⟨_, _, -, -, rfl⟩
      · rfl
      · rfl
    have hsecond : a₂.healthCheck = a₁.healthCheck := by
      rcases literalField_ok h₂ with ⟨-, -, rfl⟩ | ⟨_, _, -, -, rfl⟩
      · rfl
      · rfl
    rw [hsecond, hfirst, hnew]
  have hheap : (a₂.objects heap).heap = heap := by
    show heap ++ a₂.healthCheck = heap
    rw [hnone, List.append_nil]
  rw [hheap]
  exact literalField_map (typeAssertCheckObjects_eq heap) fun v => rfl

/-! ## Lists as they should be written -/

/-- What an object of a `healthcheck` list gives. -/
structure GivenCheck where
  failures : ℤ
  timeout : ℤ

/-- The check with these values and no others. -/
def GivenCheck.toHealthCheck (check : GivenCheck) : HealthCheck :=
  { zeroHealthCheck with failures := check.failures, timeout := check.timeout }

section Lists

variable (parseDuration : String → Except String ℤ)

/-- An object with the keys `failures`, an integral number in the range of `int`, and `timeout`,
the text of a duration, in any order. -/
def CheckWritten (item : Json) (check : GivenCheck) : Prop :=
  ∃ fields mantissa exponent text, item = .obj fields ∧
    fields.Perm [("failures", .num mantissa exponent), ("timeout", .str text)] ∧
    (mantissa : ℚ) * 10 ^ exponent = check.failures ∧
    -2 ^ 63 ≤ check.failures ∧ check.failures < 2 ^ 63 ∧ parseDuration text = .ok check.timeout

/-- The literal lists these texts as addresses and these health checks; what else it holds is left
open. -/
structure ListsWritten (literal : List (String × Json)) (texts : List String)
    (checks : List GivenCheck) : Prop where
  addresses : literal.lookup "addresses" = some (.arr (texts.map .str))
  valid : ∀ text ∈ texts, (parseIP text).isSome
  healthcheck : (literal.lookup "healthcheck" = none ∧ checks = []) ∨
    ∃ items, literal.lookup "healthcheck" = some (.arr items) ∧
      List.Forall₂ (CheckWritten parseDuration) items checks

/-- The lists have been converted: one address and one object for each element, and the objects
that were there are as they were. -/
structure ListsConverted (minTTL : ℕ) (texts : List String) (checks : List GivenCheck)
    (heap : List HealthCheck) (a : AObjects) : Prop where
  addresses : List.Forall₂ (fun text ip => parseIP text = some ip) texts a.addresses
  checks : List.Forall₂ (fun check p => a.heap[p]? = some check.toHealthCheck) checks a.healthCheck
  separate : a.healthCheck.Nodup
  fresh : ∀ p ∈ a.healthCheck, heap.length ≤ p
  others : ∀ p < heap.length, a.heap[p]? = heap[p]?
  ttl : a.ttl = minTTL

variable {parseDuration}

/-- An integral number is converted to itself. -/
theorem truncate_eq {mantissa exponent n : ℤ} (h : (mantissa : ℚ) * 10 ^ exponent = n) :
    truncate mantissa exponent = n := by
  unfold truncate
  split_ifs with hexp
  · obtain ⟨k, rfl⟩ := Int.eq_ofNat_of_zero_le hexp
    rw [zpow_natCast] at h
    rw [Int.toNat_natCast]
    exact_mod_cast h
  · obtain ⟨k, hk⟩ := Int.eq_ofNat_of_zero_le (show 0 ≤ -exponent by omega)
    have hpow : (10 : ℚ) ^ k ≠ 0 := pow_ne_zero k (by norm_num)
    have hexponent : exponent = -(k : ℤ) := by omega
    rw [hexponent, zpow_neg, zpow_natCast, ← div_eq_mul_inv, div_eq_iff hpow] at h
    have hmantissa : mantissa = n * 10 ^ k := by exact_mod_cast h
    rw [hk, Int.toNat_natCast, hmantissa]
    exact Int.mul_tdiv_cancel n (pow_ne_zero k (by norm_num))

/-- An object of two keys is converted by assigning one after the other. -/
theorem typeAssertStruct_pair {σ : Type} {assign : String → Json → σ → Except Failure σ}
    {zero s t : σ} {k l : String} {j i : Json} (hfirst : assign k j zero = .ok s)
    (hsecond : assign l i s = .ok t) :
    typeAssertStruct assign zero (.json (.obj [(k, j), (l, i)])) = .ok t := by
  rw [typeAssertStruct, List.foldlM_cons, hfirst]
  show (assign l i s >>= pure) = .ok t
  rw [hsecond]
  rfl

/-- An object is converted to the check it gives, whichever key comes first. -/
theorem typeAssertStruct_written {item : Json} {check : GivenCheck}
    (h : CheckWritten parseDuration item check) :
    typeAssertStruct (assignHealthCheck parseDuration) zeroHealthCheck (.json item)
      = .ok check.toHealthCheck := by
  obtain ⟨fields, mantissa, exponent, text, rfl, hfields, hfailures, -, -, htimeout⟩ := h
  have hset : ∀ hc, assignHealthCheck parseDuration "failures" (.num mantissa exponent) hc
      = .ok { hc with failures := check.failures } := by
    intro hc
    rw [← truncate_eq hfailures]
    rfl
  have hwait : ∀ hc, assignHealthCheck parseDuration "timeout" (.str text) hc
      = .ok { hc with timeout := check.timeout } := by
    intro hc
    simp [assignHealthCheck, typeAssertScalar, typeAssertDuration, htimeout, Except.map]
  rcases List.perm_pair.mp hfields with rfl | rfl
  · exact typeAssertStruct_pair (hset _) (hwait _)
  · exact typeAssertStruct_pair (hwait _) (hset _)

/-- A list of objects is converted element by element. -/
theorem typeAssertHealthChecks_written {items : List Json} {checks : List GivenCheck}
    (h : List.Forall₂ (CheckWritten parseDuration) items checks) :
    typeAssertHealthChecks parseDuration (.arr items)
      = .ok (checks.map GivenCheck.toHealthCheck) := by
  show (items.map Literal.json).mapM
    (typeAssertStruct (assignHealthCheck parseDuration) zeroHealthCheck) = _
  rw [mapM_eq_ok_iff_forall₂, List.forall₂_map_left_iff, List.forall₂_map_right_iff]
  exact h.imp fun item check hitem => typeAssertStruct_written hitem

/-- A list of texts is converted element by element. -/
theorem typeAssertSlice_texts (texts : List String) :
    typeAssertSlice typeAssertIP (.arr (texts.map .str))
      = .ok (texts.map fun text => (parseIP text).getD []) := by
  show ((texts.map Json.str).map Literal.json).mapM typeAssertIP = _
  rw [mapM_eq_ok_iff, List.map_map, List.map_map, List.map_map]
  rfl

variable {literal : List (String × Json)} {texts : List String} {checks : List GivenCheck}

/-- The record that the lists make. -/
def listedRecord (minTTL : ℕ) (texts : List String) (checks : List GivenCheck) : ARecord :=
  ⟨texts.map fun text => (parseIP text).getD [], minTTL, checks.map GivenCheck.toHealthCheck⟩

/-- Without a TTL, the lists are all that is converted. -/
theorem parseA_lists (h : ListsWritten parseDuration literal texts checks)
    (httl : literal.lookup "ttl" = none) (minTTL : ℕ) :
    parseA parseDuration literal ⟨[], minTTL, []⟩ = .ok (listedRecord minTTL texts checks) := by
  unfold parseA literalField
  rw [h.addresses, httl]
  dsimp only
  rw [typeAssertSlice_texts]
  rcases h.healthcheck with ⟨hnone, rfl⟩ | ⟨items, hitems, hchecks⟩
  · rw [hnone]
    rfl
  · rw [hitems]
    dsimp only
    rw [typeAssertHealthChecks_written hchecks]
    rfl

/-- With one, whatever it is, the conversion panics. -/
theorem parseA_ttl (h : ListsWritten parseDuration literal texts checks) {j : Json}
    (httl : literal.lookup "ttl" = some j) (a : ARecord) :
    parseA parseDuration literal a = .error (conversionPanic (.json j) "uint32") := by
  unfold parseA literalField
  rw [h.addresses, httl]
  dsimp only
  rw [typeAssertSlice_texts]
  rfl

/-- The objects of the record that the lists make. -/
theorem listsConverted_objects (h : ListsWritten parseDuration literal texts checks) (minTTL : ℕ)
    (heap : List HealthCheck) :
    ListsConverted minTTL texts checks heap
      ((listedRecord minTTL texts checks).objects heap) := by
  refine ⟨?_, ?_, List.nodup_range', fun p hp => ?_, fun p hp => ?_, rfl⟩
  · show List.Forall₂ _ texts (texts.map _)
    rw [List.forall₂_map_right_iff, List.forall₂_same]
    intro text htext
    obtain ⟨ip, hip⟩ := Option.isSome_iff_exists.mp (h.valid text htext)
    rw [hip]
    rfl
  · have hpointers := getElem?_append_range' heap (checks.map GivenCheck.toHealthCheck)
    rw [List.forall₂_map_left_iff] at hpointers
    exact hpointers
  · exact (List.mem_range'_1.mp hp).1
  · exact List.getElem?_append_left hp

end Lists

/-- **Lists in a literal.**  Take any literal whose addresses and health checks are written as they
should be, in a zone with the minimal TTL of `soa`.  It is converted element by element, on new
objects and with that TTL, exactly when it has no `ttl`; and so is a record with this literal. -/
theorem parseLiteral_lists_iff {parseDuration : String → Except String ℤ}
    {literal : List (String × Json)} {texts : List String} {checks : List GivenCheck}
    (h : ListsWritten parseDuration literal texts checks) (soa : SOA) (heap : List HealthCheck)
    (name : String) (value : Option RecordValue) :
    ((∃ a, parseAObjects parseDuration literal ⟨heap, [], soa.minTTL, []⟩ = .ok a ∧
      ListsConverted soa.minTTL texts checks heap a) ↔ literal.lookup "ttl" = none) ∧
    (convertRecord parseDuration (some soa) ⟨.a, name, some literal, value⟩
        = .ok ⟨.a, name, some literal, some (.a (listedRecord soa.minTTL texts checks))⟩ ↔
      literal.lookup "ttl" = none) := by
  have hobjects : parseAObjects parseDuration literal ⟨heap, [], soa.minTTL, []⟩
      = (parseA parseDuration literal ⟨[], soa.minTTL, []⟩).map (ARecord.objects heap) := by
    have hstart : (⟨heap, [], soa.minTTL, []⟩ : AObjects)
        = ARecord.objects heap ⟨[], soa.minTTL, []⟩ := by
      show _ = (⟨heap ++ [], [], soa.minTTL, []⟩ : AObjects)
      rw [List.append_nil]
    rw [hstart]
    exact parseAObjects_eq heap literal rfl
  have hrecord : convertRecord parseDuration (some soa) ⟨.a, name, some literal, value⟩
      = (recordError name (parseA parseDuration literal ⟨[], soa.minTTL, []⟩)).map
          fun a => ⟨.a, name, some literal, some (.a a)⟩ := rfl
  rw [hobjects, hrecord]
  cases httl : literal.lookup "ttl" with
  | none =>
    rw [parseA_lists h httl]
    exact ⟨iff_of_true ⟨_, rfl, listsConverted_objects h soa.minTTL heap⟩ rfl,
      iff_of_true rfl rfl⟩
  | some j =>
    rw [parseA_ttl h httl]
    refine ⟨iff_of_false ?_ (by simp), iff_of_false ?_ (by simp)⟩
    · rintro ⟨a, ha, -⟩
      exact absurd ha (by simp [Except.map])
    · intro hr
      exact absurd hr (by simp [recordError, conversionPanic, Except.map])

/-- The SOA of a zone with a minimal TTL of a minute. -/
def minuteSOA : SOA := ⟨"test", "admin.test", 60, 1, 60, 1, 120⟩

/-- A literal with two addresses and one health check. -/
def checkedLiteral : List (String × Json) :=
  [("addresses", .arr [.str "10.0.0.1", .str "10.0.0.2"]),
    ("healthcheck", .arr [.obj [("timeout", .str "1s"), ("failures", .num 3 0)]])]

theorem parseLiteral_lists_checkedLiteral :
    ∃ a, parseAObjects oneSecond checkedLiteral ⟨[], [], 60, []⟩ = .ok a ∧
      ListsConverted 60 ["10.0.0.1", "10.0.0.2"] [⟨3, 1000000000⟩] [] a := by
  have hcheck : CheckWritten oneSecond
      (.obj [("timeout", .str "1s"), ("failures", .num 3 0)]) ⟨3, 1000000000⟩ :=
    ⟨_, 3, 0, "1s", rfl, .swap _ _ _, by norm_num, by norm_num, by norm_num, rfl⟩
  have hlists : ListsWritten oneSecond checkedLiteral ["10.0.0.1", "10.0.0.2"]
      [⟨3, 1000000000⟩] :=
    ⟨rfl, by decide +kernel, Or.inr ⟨_, rfl, .cons hcheck .nil⟩⟩
  exact (parseLiteral_lists_iff hlists minuteSOA [] "web.test" none).1.mpr rfl

/-- A literal with one address and the TTL of the zone. -/
def ttlLiteral : List (String × Json) :=
  [("addresses", .arr [.str "10.0.0.1"]), ("ttl", .num 60 0)]

/-- **A literal that gives its TTL is not converted**, though it is the one it would get. -/
theorem parseLiteral_ttlLiteral :
    ListsWritten oneSecond ttlLiteral ["10.0.0.1"] [] ∧
    (∀ heap, parseAObjects oneSecond ttlLiteral ⟨heap, [], minuteSOA.minTTL, []⟩
      = .error (.panic "interface conversion: interface \x7b\x7d is float64, not uint32")) ∧
    convertRecord oneSecond (some minuteSOA) ⟨.a, "web.test", some ttlLiteral, none⟩
      = .error (.panic "interface conversion: interface \x7b\x7d is float64, not uint32") := by
  refine ⟨⟨rfl, by decide +kernel, Or.inl ⟨rfl, rfl⟩⟩, fun heap => ?_, ?_⟩
  · rfl
  · rfl

end Border
