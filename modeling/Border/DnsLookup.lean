/-
# What the DNS server should answer

The answers to a query in terms of the zones and their records, without the loops of the
server: `ClosestZone` says which zone is responsible for a name, and `expectedAnswers` what
that zone answers.

`serveDNS_lookup_iff` : the server gives these answers exactly for the queries that are
`Answerable`.  For the others it does not answer at all: it follows a nil pointer or, for an
LB record with a listener that is not an address, ends the process.
-/
import Border.LBAgreement

namespace Border

open Dns GoJson GoMap NetAddr

/-! ## The closest zone -/

/-- The key under which the zone of the given labels stands. -/
def zoneKey (labels : List String) : String := String.intercalate "." labels ++ "."

/-- The zone that is responsible for a list of labels: the one under the longest suffix that
is a key, where the empty suffix does not count. -/
inductive ClosestZone (zones : Zones) (labels : List String) : Option Zone → Prop
  | found {suffix : List String} {zone : Option Zone} (hsuffix : suffix <:+ labels)
      (hne : suffix ≠ []) (hzone : zones.lookup (zoneKey suffix) = some zone)
      (hlongest : ∀ longer, longer <:+ labels → suffix.length < longer.length →
        zones.lookup (zoneKey longer) = none) :
      ClosestZone zones labels zone
  | absent (h : ∀ suffix, suffix <:+ labels → suffix ≠ [] → zones.lookup (zoneKey suffix) = none) :
      ClosestZone zones labels none

/-- A list whose own key is there has its closest zone under it. -/
theorem closestZone_of_lookup {zones : Zones} {label : String} {labels : List String}
    {zone z : Option Zone} (hz : zones.lookup (zoneKey (label :: labels)) = some z) :
    ClosestZone zones (label :: labels) zone ↔ z = zone := by
  constructor
  · rintro (@⟨suffix, _, hsuffix, hne, hzone, hlongest⟩ | h)
    · rcases List.suffix_cons_iff.mp hsuffix with rfl | hsuffix
      · exact Option.some.inj (hz.symm.trans hzone)
      · have hlen : suffix.length < (label :: labels).length := by
          have := hsuffix.length_le
          rw [List.length_cons]
          omega
        rw [hlongest _ List.suffix_rfl hlen] at hz
        exact absurd hz (by simp)
    · rw [h _ List.suffix_rfl (by simp)] at hz
      exact absurd hz (by simp)
  · rintro rfl
    refine .found List.suffix_rfl (by simp) hz fun longer hlonger hlen => ?_
    have := hlonger.length_le
    omega

/-- A list whose own key is not there has the closest zone of its tail. -/
theorem closestZone_of_not_lookup {zones : Zones} {label : String} {labels : List String}
    {zone : Option Zone} (hz : zones.lookup (zoneKey (label :: labels)) = none) :
    ClosestZone zones (label :: labels) zone ↔ ClosestZone zones labels zone := by
  constructor
  · rintro (@⟨suffix, _, hsuffix, hne, hzone, hlongest⟩ | h)
    · rcases List.suffix_cons_iff.mp hsuffix with rfl | hsuffix
      · rw [hz] at hzone
        exact absurd hzone (by simp)
      · exact .found hsuffix hne hzone fun longer hlonger hlen =>
          hlongest longer (List.suffix_cons_iff.mpr (Or.inr hlonger)) hlen
    · exact .absent fun suffix hsuffix hne =>
        h suffix (List.suffix_cons_iff.mpr (Or.inr hsuffix)) hne
  · rintro (@⟨suffix, _, hsuffix, hne, hzone, hlongest⟩ | h)
    · refine .found (List.suffix_cons_iff.mpr (Or.inr hsuffix)) hne hzone
        fun longer hlonger hlen => ?_
      rcases List.suffix_cons_iff.mp hlonger with rfl | hlonger
      · exact hz
      · exact hlongest longer hlonger hlen
    · refine .absent fun suffix hsuffix hne => ?_
      rcases List.suffix_cons_iff.mp hsuffix with rfl | hsuffix
      · exact hz
      · exact h suffix hsuffix hne

/-- **The loop over the suffixes finds the closest zone**, and there is only one. -/
theorem closestZone_iff (zones : Zones) (labels : List String) (zone : Option Zone) :
    ClosestZone zones labels zone ↔ findSuffix zones labels = zone := by
  induction labels with
  | nil =>
    constructor
    · rintro (⟨hsuffix, hne, -, -⟩ | -)
      · exact absurd (List.suffix_nil.mp hsuffix) hne
      · rfl
    · rintro rfl
      exact .absent fun suffix hsuffix hne => absurd (List.suffix_nil.mp hsuffix) hne
  | cons label labels ih =>
    rw [findSuffix]
    cases hz : zones.lookup (String.intercalate "." (label :: labels) ++ ".") with
    | none => rw [closestZone_of_not_lookup hz, ih]
    | some z => rw [closestZone_of_lookup hz]

/-! ## The answers of a zone -/

/-- Every answer has the name and the type that were asked for. -/
def answerHeader (q : Question) (ttl : ℕ) : RRHeader := ⟨q.name, q.qtype, classINET, ttl⟩

/-- The first record of a name. -/
def Zone.recordNamed (zone : Zone) (name : String) : Option Record :=
  (zone.records.elems.filterMap id).find? fun rec => rec.name = name

theorem mem_of_recordNamed {zone : Zone} {name : String} {rec : Record}
    (h : zone.recordNamed name = some rec) : some rec ∈ zone.records.elems ∧ rec.name = name := by
  obtain ⟨r, hr, hid⟩ := List.mem_filterMap.mp (List.mem_of_find?_eq_some h)
  obtain rfl : r = some rec := hid
  have hname := List.find?_some (p := fun rec : Record => decide (rec.name = name)) h
  exact ⟨hr, of_decide_eq_true hname⟩

/-- Whether an address is an IPv4 one. -/
def isIPv4 (ip : IP) : Bool := (to4 ip).isSome

/-- The answers of an LB record. -/
def LBRecord.expected (lb : LBRecord) (q : Question) : List RR :=
  match lb.listeners.mapM literalIP, q.qtype with
  | some ips, .a => (ips.filter isIPv4).map (.a (answerHeader q lb.ttl))
  | some ips, .aaaa => (ips.filter fun ip => !isIPv4 ip).map (.aaaa (answerHeader q lb.ttl))
  | _, _ => []

/-- The answers of a record. -/
def Record.expected (rec : Record) (q : Question) : List RR :=
  match rec.type, rec.value with
  | .a, some (.a a) => if q.qtype = .a then a.addresses.map (.a (answerHeader q a.ttl)) else []
  | .lb, some (.lb lb) => lb.expected q
  | _, _ => []

/-- The answers of a zone. -/
def Zone.expected (zone : Zone) (q : Question) : List RR :=
  match q.qtype with
  | .soa =>
    match zone.soa with
    | none => []
    | some soa =>
      [.soa (answerHeader q soa.minTTL) soa.domain soa.admin soa.serial soa.refresh soa.retry
        soa.expire soa.minTTL]
  | .ns =>
    match zone.ns with
    | none => []
    | some ns => ns.servers.map (.ns (answerHeader q ns.ttl))
  | _ =>
    match zone.recordNamed q.name with
    | none => []
    | some rec => rec.expected q

/-- The answers that a query should get from its closest zone. -/
def expectedAnswers (zone : Option Zone) (q : Question) : List RR :=
  match zone with
  | none => []
  | some zone => zone.expected q

/-! ## The queries that are answered -/

/-- The value of a record can be converted for a query: it is there, every listener of an LB
record has the text of an address as its host, and a value of the other kind has nothing that
would be served. -/
def Record.Convertible (rec : Record) (qtype : RRType) : Prop :=
  match rec.type, rec.value with
  | .other _, _ => True
  | .a, none => qtype ≠ .a
  | .a, some (.a _) => True
  | .a, some (.lb lb) => qtype = .a → lb.listeners = []
  | .lb, none => False
  | .lb, some (.a a) => qtype = .a → a.addresses = []
  | .lb, some (.lb lb) => ∀ listener ∈ lb.listeners, literalIP listener ≠ none

/-- The zone has what the query reads: its SOA or its NS; or its records have no nil one
before the first of the name, and that one can be converted. -/
def Zone.Answerable (zone : Zone) (q : Question) : Prop :=
  match q.qtype with
  | .soa => zone.soa ≠ none
  | .ns => zone.ns ≠ none
  | qtype =>
    none ∉ zone.records.elems.takeWhile (fun r => r.map Record.name ≠ some q.name) ∧
      ∀ rec, zone.recordNamed q.name = some rec → rec.Convertible qtype

/-- The query is answered by its closest zone, or there is none. -/
def Answerable (zone : Option Zone) (q : Question) : Prop :=
  ∀ z, zone = some z → z.Answerable q

/-! ## The server against the expected answers -/

/-- The loop over the records finds the first of the name, unless it meets a nil one. -/
theorem findRecord_eq_ok_iff (name : String) (rs : List (Option Record)) (found : Option Record) :
    findRecord name rs = .ok found ↔
      none ∉ rs.takeWhile (fun r => r.map Record.name ≠ some name) ∧
        (rs.filterMap id).find? (fun rec => rec.name = name) = found := by
  induction rs with
  | nil => simp [findRecord]
  | cons r rs ih =>
    cases r with
    | none => simp [findRecord]
    | some rec =>
      rw [findRecord, List.filterMap_cons_some (f := id) rfl]
      by_cases hname : rec.name = name
      · rw [if_pos hname, List.takeWhile_cons_of_neg (by simp [hname]),
          List.find?_cons_of_pos (by simpa using hname)]
        simp
      · rw [if_neg hname, List.takeWhile_cons_of_pos (by simp [hname]),
          List.find?_cons_of_neg (by simpa using hname), ih]
        simp

/-- A converted address is of the type A exactly when it is an IPv4 one. -/
theorem matchesType_addressRR_a (name : String) (ttl : ℕ) (ip : IP) :
    matchesType .a (addressRR name ttl ip) = isIPv4 ip := by
  unfold addressRR isIPv4
  cases (to4 ip).isSome <;> rfl

theorem matchesType_addressRR_aaaa (name : String) (ttl : ℕ) (ip : IP) :
    matchesType .aaaa (addressRR name ttl ip) = !isIPv4 ip := by
  unfold addressRR isIPv4
  cases (to4 ip).isSome <;> rfl

theorem matchesType_addressRR_other {qtype : RRType} (ha : qtype ≠ .a) (haaaa : qtype ≠ .aaaa)
    (name : String) (ttl : ℕ) (ip : IP) : matchesType qtype (addressRR name ttl ip) = false := by
  unfold addressRR
  cases (to4 ip).isSome
  · exact decide_eq_false (Ne.symm haaaa)
  · exact decide_eq_false (Ne.symm ha)

/-- The addresses of one family among the converted ones. -/
theorem filter_addressRR {qtype : RRType} {name : String} {ttl : ℕ} {p : IP → Bool} {rr : IP → RR}
    (hp : ∀ ip, matchesType qtype (addressRR name ttl ip) = p ip)
    (hrr : ∀ ip, p ip = true → addressRR name ttl ip = rr ip) (ips : List IP) :
    (ips.map (addressRR name ttl)).filter (matchesType qtype) = (ips.filter p).map rr := by
  rw [List.filter_map]
  have hcomp : matchesType qtype ∘ addressRR name ttl = p := funext hp
  rw [hcomp]
  apply List.map_congr_left
  intro ip hip
  exact hrr ip (List.mem_filter.mp hip).2

/-- The converted listeners of the asked type. -/
theorem filter_convert_eq_expected {lb : LBRecord} {ips : List IP}
    (hips : lb.listeners.mapM literalIP = some ips) (q : Question) :
    (ips.map (addressRR q.name lb.ttl)).filter (matchesType q.qtype) = lb.expected q := by
  obtain ⟨name, qtype⟩ := q
  unfold LBRecord.expected
  rw [hips]
  by_cases ha : qtype = .a
  · obtain rfl := ha
    refine filter_addressRR (matchesType_addressRR_a _ _) (fun ip hip => ?_) ips
    exact if_pos hip
  · by_cases haaaa : qtype = .aaaa
    · obtain rfl := haaaa
      refine filter_addressRR (matchesType_addressRR_aaaa _ _) (fun ip hip => ?_) ips
      exact if_neg (by simpa [isIPv4] using hip)
    · have hnone : (ips.map (addressRR name lb.ttl)).filter (matchesType qtype) = [] := by
        rw [List.filter_eq_nil_iff]
        intro rr hrr
        obtain ⟨ip, -, rfl⟩ := List.mem_map.mp hrr
        rw [matchesType_addressRR_other ha haaaa]
        simp
      rw [hnone]
      dsimp only
      split
      next => exact absurd rfl ha
      next => exact absurd rfl haaaa
      next => rfl

/-- `LB.Convert` succeeds when every listener is the text of an address. -/
theorem convert_eq_ok_iff {lb : LBRecord} {name : String} {rrs : List RR} :
    lb.convert name = .ok rrs ↔
      ∃ ips, lb.listeners.mapM literalIP = some ips ∧ ips.map (addressRR name lb.ttl) = rrs := by
  have hspec := convert_spec lb name
  cases hips : lb.listeners.mapM literalIP with
  | none =>
    rw [hips] at hspec
    obtain ⟨msg, hmsg⟩ := hspec
    simp [hmsg]
  | some ips =>
    rw [hips] at hspec
    rw [show lb.convert name = _ from hspec]
    simp

theorem mapM_literalIP_isSome {listeners : List String} :
    (∃ ips, listeners.mapM literalIP = some ips) ↔
      ∀ listener ∈ listeners, literalIP listener ≠ none := by
  constructor
  · rintro ⟨ips, hips⟩ listener hmem hnone
    rw [mapM_literalIP_none hmem hnone] at hips
    exact absurd hips (by simp)
  · exact fun h => ⟨_, mapM_literalIP_eq_some h⟩

/-- Nothing is converted from a value of the other kind: an LB one in an A record. -/
theorem convert_eq_nil_iff {lb : LBRecord} {name : String} :
    lb.convert name = .ok [] ↔ lb.listeners = [] := by
  rw [convert_eq_ok_iff]
  constructor
  · rintro ⟨ips, hips, hnil⟩
    obtain rfl := List.map_eq_nil_iff.mp hnil
    cases hl : lb.listeners with
    | nil => rfl
    | cons l ls =>
      rw [hl, List.mapM_cons] at hips
      obtain ⟨ip, -, hips⟩ := Option.bind_eq_some_iff.mp hips
      obtain ⟨rest, -, hips⟩ := Option.bind_eq_some_iff.mp hips
      exact absurd (Option.some.inj hips) (by simp)
  · intro h
    exact ⟨[], by rw [h]; rfl, rfl⟩

/-- The same for an A value in an LB record. -/
theorem filter_aConvert_eq_nil_iff {a : ARecord} {q : Question} :
    (a.convert q.name).filter (matchesType q.qtype) = [] ↔ (q.qtype = .a → a.addresses = []) := by
  unfold ARecord.convert
  rw [List.filter_map, List.map_eq_nil_iff, List.filter_eq_nil_iff]
  constructor
  · intro h hq
    rw [List.eq_nil_iff_forall_not_mem]
    intro ip hip
    exact h ip hip (decide_eq_true hq.symm)
  · intro h ip hip hmatch
    have hq : RRType.a = q.qtype := of_decide_eq_true hmatch
    rw [h hq.symm] at hip
    exact absurd hip List.not_mem_nil

/-- **A record is answered as expected exactly when its value can be converted.** -/
theorem answerRecord_iff (rec : Record) (q : Question) :
    answerRecord q.name q.qtype rec = .ok (rec.expected q) ↔ rec.Convertible q.qtype := by
  unfold answerRecord Record.expected Record.Convertible
  match rec.type, rec.value with
  | .other _, _ => simp
  | .a, none =>
    by_cases hq : q.qtype = .a <;> simp [hq, convertValue]
  | .a, some (.a a) =>
    by_cases hq : q.qtype = .a <;> simp [hq, convertValue, ARecord.convert, answerHeader]
  | .a, some (.lb lb) =>
    by_cases hq : q.qtype = .a
    · simp only [hq, if_true, convertValue, convert_eq_nil_iff, forall_const]
    · simp [hq]
  | .lb, none => simp [convertValue, Except.map]
  | .lb, some (.a a) =>
    simp only [convertValue, Except.map, Except.ok.injEq]
    exact filter_aConvert_eq_nil_iff
  | .lb, some (.lb lb) =>
    show (lb.convert q.name).map _ = .ok (lb.expected q) ↔
      ∀ listener ∈ lb.listeners, literalIP listener ≠ none
    rw [← mapM_literalIP_isSome]
    constructor
    · intro h
      obtain ⟨rrs, hrrs, -⟩ := map_ok h
      obtain ⟨ips, hips, -⟩ := convert_eq_ok_iff.mp hrrs
      exact ⟨ips, hips⟩
    · rintro ⟨ips, hips⟩
      rw [convert_eq_ok_iff.mpr ⟨ips, hips, rfl⟩, ← filter_convert_eq_expected hips]
      rfl

/-- The answers of a zone to a query for records. -/
theorem answerZone_records {zone : Zone} {q : Question} (hsoa : q.qtype ≠ .soa)
    (hns : q.qtype ≠ .ns) :
    answerZone zone q = .ok (zone.expected q) ↔ zone.Answerable q := by
  have hexpected : zone.expected q = match zone.recordNamed q.name with
      | none => []
      | some rec => rec.expected q := by
    unfold Zone.expected
    split
    next h => exact absurd h hsoa
    next h => exact absurd h hns
    next => rfl
  have hanswerable : zone.Answerable q ↔
      none ∉ zone.records.elems.takeWhile (fun r => r.map Record.name ≠ some q.name) ∧
        ∀ rec, zone.recordNamed q.name = some rec → rec.Convertible q.qtype := by
    unfold Zone.Answerable
    split
    next h => exact absurd h hsoa
    next h => exact absurd h hns
    next => exact Iff.rfl
  rw [answerZone_eq hsoa hns, hexpected, hanswerable]
  constructor
  · intro h
    obtain ⟨found, hfound, hrec⟩ := bind_ok h
    obtain ⟨hnil, hnamed⟩ := (findRecord_eq_ok_iff _ _ _).mp hfound
    refine ⟨hnil, fun rec hrec' => ?_⟩
    obtain rfl : found = some rec := hnamed.symm.trans hrec'
    rw [hrec'] at hrec
    exact (answerRecord_iff rec q).mp hrec
  · rintro ⟨hnil, hconvertible⟩
    rw [(findRecord_eq_ok_iff _ _ _).mpr ⟨hnil, rfl⟩]
    show (match zone.recordNamed q.name with
      | none => _
      | some rec => _) = _
    cases hrec : zone.recordNamed q.name with
    | none => rfl
    | some rec => exact (answerRecord_iff rec q).mpr (hconvertible rec hrec)

theorem answerZone_iff (zone : Zone) (q : Question) :
    answerZone zone q = .ok (zone.expected q) ↔ zone.Answerable q := by
  by_cases hsoa : q.qtype = .soa
  · unfold answerZone Zone.expected Zone.Answerable
    rw [hsoa]
    cases zone.soa with
    | none => simp
    | some soa => simp [SOA.convert, answerHeader, hsoa]
  · by_cases hns : q.qtype = .ns
    · unfold answerZone Zone.expected Zone.Answerable
      rw [hns]
      cases zone.ns with
      | none => simp
      | some ns => simp [NS.convert, answerHeader, hns]
    · exact answerZone_records hsoa hns

/-- The answers come from the closest zone alone. -/
theorem answers_closest {zones : Zones} {q : Question} {zone : Option Zone}
    (hzone : ClosestZone zones (splitDomainName q.name) zone) :
    answers zones q = zone.elim (.ok []) fun z => answerZone z q := by
  have hfind : findZone zones q.name = zone := (closestZone_iff _ _ _).mp hzone
  unfold answers
  rw [hfind]
  cases zone <;> rfl

/-- The answers in a reply are those that were found. -/
theorem serveDNS_answer_iff {zones : Zones} {q : Question} {more : List Question}
    {rrs : List RR} :
    (∃ r, serveDNS zones (q :: more) = .ok r ∧ r.answer = rrs) ↔ answers zones q = .ok rrs := by
  show (∃ r, (answers zones q).map reply = .ok r ∧ r.answer = rrs) ↔ _
  constructor
  · rintro ⟨r, hr, rfl⟩
    obtain ⟨rrs, hrrs, rfl⟩ := map_ok hr
    rw [reply_answer, hrrs]
  · intro h
    exact ⟨reply rrs, by rw [h]; rfl, reply_answer rrs⟩

theorem authoritative_iff {zones : Zones} {q : Question} {more : List Question}
    {r : Dns.Reply} (h : serveDNS zones (q :: more) = .ok r) :
    r.authoritative = true ↔ r.answer ≠ [] := by
  obtain ⟨rrs, -, rfl⟩ := map_ok h
  unfold reply
  by_cases hnil : rrs = []
  · simp [hnil]
  · simp [hnil]

/-- The two queries for an LB record share out its listeners. -/
theorem addresses_expected_perm {lb : LBRecord} {ips : List IP}
    (hips : lb.listeners.mapM literalIP = some ips) (name : String) :
    (addresses (lb.expected ⟨name, .a⟩ ++ lb.expected ⟨name, .aaaa⟩)).Perm ips := by
  unfold LBRecord.expected addresses
  rw [hips, List.filterMap_append, List.filterMap_map, List.filterMap_map]
  have ha : RR.address ∘ RR.a (answerHeader ⟨name, .a⟩ lb.ttl) = some := rfl
  have haaaa : RR.address ∘ RR.aaaa (answerHeader ⟨name, .aaaa⟩ lb.ttl) = some := rfl
  rw [ha, haaaa, List.filterMap_some, List.filterMap_some]
  exact List.filter_append_perm _ _

/-- **What the server answers.**  A query gets the answers expected from its closest zone
exactly when it is answerable.  A reply is authoritative exactly when it has answers; no
other zone and no further question has any influence; and the queries of the types A and
AAAA for an LB record share out its listeners. -/
theorem serveDNS_lookup_iff {zones : Zones} {q : Question} {zone : Option Zone}
    (hzone : ClosestZone zones (splitDomainName q.name) zone) (more : List Question) :
    ((∃ r, serveDNS zones (q :: more) = .ok r ∧ r.answer = expectedAnswers zone q) ↔
      Answerable zone q) ∧
    (∀ r, serveDNS zones (q :: more) = .ok r → (r.authoritative = true ↔ r.answer ≠ [])) ∧
    (∀ zones' more', ClosestZone zones' (splitDomainName q.name) zone →
      serveDNS zones' (q :: more') = serveDNS zones (q :: more)) ∧
    ∀ z rec lb ips, zone = some z → z.recordNamed q.name = some rec → rec.type = .lb →
      rec.value = some (.lb lb) → lb.listeners.mapM literalIP = some ips →
      (addresses (expectedAnswers zone ⟨q.name, .a⟩
        ++ expectedAnswers zone ⟨q.name, .aaaa⟩)).Perm ips := by
  refine ⟨?_, fun r hr => authoritative_iff hr, fun zones' more' hzone' => ?_, ?_⟩
  · rw [serveDNS_answer_iff, answers_closest hzone]
    cases zone with
    | none => simp [expectedAnswers, Answerable]
    | some z => simpa [expectedAnswers, Answerable] using answerZone_iff z q
  · show (answers zones' q).map reply = (answers zones q).map reply
    rw [answers_closest hzone, answers_closest hzone']
  · rintro z rec lb ips rfl hrec htype hvalue hips
    have hexpected : ∀ qtype, rec.expected ⟨q.name, qtype⟩ = lb.expected ⟨q.name, qtype⟩ := by
      intro qtype
      unfold Record.expected
      rw [htype, hvalue]
    show (addresses ((match z.recordNamed q.name with | none => _ | some rec => _)
      ++ (match z.recordNamed q.name with | none => _ | some rec => _))).Perm ips
    rw [hrec]
    show (addresses (rec.expected _ ++ rec.expected _)).Perm ips
    rw [hexpected, hexpected]
    exact addresses_expected_perm hips q.name

/-! ## The zone of a load balancer -/

/-- The zones of a configuration with one LB record. -/
def balancerZones (listener : String) : Zones :=
  Finmap.singleton "test.home.arpa." (some (balancerZone listener))

theorem closestZone_balancer (listener : String) :
    ClosestZone (balancerZones listener) (splitDomainName "balancer.test.home.arpa.")
      (some (balancerZone listener)) := by
  have hlabels : splitDomainName "balancer.test.home.arpa." = ["balancer", "test", "home", "arpa"] := by
    decide +kernel
  rw [closestZone_iff, hlabels]
  rfl

theorem serveDNS_lookup_balancer :
    ∃ r, serveDNS (balancerZones "127.0.0.1:8000") [⟨"balancer.test.home.arpa.", .a⟩] = .ok r ∧
      r.answer = expectedAnswers (some (balancerZone "127.0.0.1:8000"))
        ⟨"balancer.test.home.arpa.", .a⟩ := by
  refine ((serveDNS_lookup_iff (closestZone_balancer "127.0.0.1:8000") []).1).mpr ?_
  intro z hz
  obtain rfl := Option.some.inj hz
  refine ⟨by simp [balancerZone, balancerRecord, Slice.elems], fun rec hrec => ?_⟩
  have hnamed : (balancerZone "127.0.0.1:8000").recordNamed "balancer.test.home.arpa."
      = some (balancerRecord "127.0.0.1:8000") := rfl
  obtain rfl := Option.some.inj (hnamed.symm.trans hrec)
  intro listener hmem
  rw [List.mem_singleton.mp hmem]
  decide +kernel

/-- A query of any type but SOA and NS for an LB record with the listener of `example.yaml`
should get no answer; it ends the process, also a query for the mail exchanger. -/
theorem serveDNS_exits_mx :
    ClosestZone (balancerZones "foo:8000") (splitDomainName "balancer.test.home.arpa.")
      (some (balancerZone "foo:8000")) ∧
    expectedAnswers (some (balancerZone "foo:8000")) ⟨"balancer.test.home.arpa.", .other 15⟩ = [] ∧
    serveDNS (balancerZones "foo:8000") [⟨"balancer.test.home.arpa.", .other 15⟩]
      = .error (.exit "Invalid IP after Peer conversion (\"foo\") for listener \"foo:8000\"") :=
  ⟨closestZone_balancer _, by decide +kernel, by decide +kernel⟩

end Border
