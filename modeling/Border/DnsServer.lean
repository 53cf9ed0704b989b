/-
# The DNS server

Model of `pkg/dnsserver/dnsserver.go` and of the `Convert` methods of
`pkg/dnsconfig/dnsconfig.go`: the search for the closest zone, the first record of the
asked name, and the answers made from its value.  `LB.Convert` ends the process on a
listener whose host is not the text of an address, which is a `Failure.exit` here.

`answers_spec` says, for the queries of the types A and AAAA together, which addresses
are in the answers: those of `servedIPs`.
-/
import Border.Config
import Border.DnsMessage

namespace Border

open Dns GoJson NetAddr

/-! ## Conversion to resource records -/

/-- `SOA.Convert`. -/
def SOA.convert (soa : SOA) (name : String) : List RR :=
  [.soa ⟨name, .soa, classINET, soa.minTTL⟩ soa.domain soa.admin soa.serial soa.refresh soa.retry
    soa.expire soa.minTTL]

/-- `A.Convert`. -/
def ARecord.convert (a : ARecord) (name : String) : List RR :=
  a.addresses.map fun ip => .a ⟨name, .a, classINET, a.ttl⟩ ip

/-- `NS.Convert`. -/
def NS.convert (ns : NS) (name : String) : List RR :=
  ns.servers.map fun server => .ns ⟨name, .ns, classINET, ns.ttl⟩ server

/-- The record for an address, of the type of its family. -/
def addressRR (name : String) (ttl : ℕ) (ip : IP) : RR :=
  if (to4 ip).isSome then .a ⟨name, .a, classINET, ttl⟩ ip
  else .aaaa ⟨name, .aaaa, classINET, ttl⟩ ip

/-- One listener in the loop of `LB.Convert`. -/
def convertListener (name : String) (ttl : ℕ) (listener : String) : Except Failure RR :=
  match splitHostPort listener with
  | .error e =>
    .error (.exit
      ("Conversion error in listener " ++ quoted listener ++ " converting to Peer IP: " ++ e))
  | .ok (host, _) =>
    match parseIP host with
    | none =>
      .error (.exit ("Invalid IP after Peer conversion (" ++ quoted host ++ ") for listener "
        ++ quoted listener))
    | some ip => .ok (addressRR name ttl ip)

/-- `LB.Convert`. -/
def LBRecord.convert (lb : LBRecord) (name : String) : Except Failure (List RR) :=
  lb.listeners.mapM (convertListener name lb.ttl)

/-- `Record.Convert` on the value of a record. -/
def convertValue (name : String) : Option RecordValue → Except Failure (List RR)
  | none => .error nilDereference
  | some (.a a) => .ok (a.convert name)
  | some (.lb lb) => lb.convert name

/-! ## Serving a query -/

/-- The loop of `findZone` over the suffixes of a name, longest first.  A nil zone is found
like any other. -/
def findSuffix (zones : Zones) : List String → Option Zone
  | [] => none
  | label :: labels =>
    match zones.lookup (String.intercalate "." (label :: labels) ++ ".") with
    | some zone => zone
    | none => findSuffix zones labels

/-- `DNSServer.findZone`. -/
def findZone (zones : Zones) (name : String) : Option Zone :=
  findSuffix zones (splitDomainName name)

/-- The first record of a name. -/
def findRecord (name : String) : List (Option Record) → Except Failure (Option Record)
  | [] => .ok none
  | none :: _ => .error nilDereference
  | some rec :: recs => if rec.name = name then .ok (some rec) else findRecord name recs

/-- Whether a converted record of an LB is of the asked type. -/
def matchesType (qtype : RRType) : RR → Bool
  | .a hdr _ => hdr.rrtype = qtype
  | .aaaa hdr _ => hdr.rrtype = qtype
  | _ => false

/-- The answers made from a record. -/
def answerRecord (name : String) (qtype : RRType) (rec : Record) : Except Failure (List RR) :=
  match rec.type with
  | .a => if qtype = .a then convertValue name rec.value else .ok []
  | .lb => (convertValue name rec.value).map (List.filter (matchesType qtype))
  | .other _ => .ok []

/-- The answers of a zone. -/
def answerZone (zone : Zone) (q : Question) : Except Failure (List RR) :=
  match q.qtype with
  | .soa =>
    match zone.soa with
    | none => .error nilDereference
    | some soa => .ok (soa.convert q.name)
  | .ns =>
    match zone.ns with
    | none => .error nilDereference
    | some ns => .ok (ns.convert q.name)
  | qtype => do
    match ← findRecord q.name zone.records.elems with
    | none => .ok []
    | some rec => answerRecord q.name qtype rec

/-- The answers to a question. -/
def answers (zones : Zones) (q : Question) : Except Failure (List RR) :=
  match findZone zones q.name with
  | none => .ok []
  | some zone => answerZone zone q

/-- The reply with the given answers. -/
def reply (answer : List RR) : Reply :=
  if answer = [] then ⟨.nameError, false, false, []⟩ else ⟨.success, true, true, answer⟩

/-- `ServeDNS`: only the first question counts. -/
def serveDNS (zones : Zones) : List Question → Except Failure Reply
  | [] => .ok (reply [])
  | q :: _ => (answers zones q).map reply

theorem reply_answer (rrs : List RR) : (reply rrs).answer = rrs := by
  unfold reply
  by_cases h : rrs = []
  · rw [if_pos h, h]
  · rw [if_neg h]

/-! ## The addresses a name is answered with -/

/-- The address whose text is the host of a listener. -/
def literalIP (listener : String) : Option IP :=
  match splitHostPort listener with
  | .error _ => none
  | .ok (host, _) => parseIP host

/-- The addresses a value is converted to; `none` when the conversion fails. -/
def valueIPs : Option RecordValue → Option (List IP)
  | none => none
  | some (.a a) => some a.addresses
  | some (.lb lb) => lb.listeners.mapM literalIP

/-- The addresses that answer the queries for a record; `none` when a query ends in a
failure. -/
def Record.servedIPs (rec : Record) : Option (List IP) :=
  match rec.type with
  | .other _ => some []
  | _ => valueIPs rec.value

/-- The record from which the queries for a name are answered: the first of that name in
the closest zone. -/
def servedRecord (zones : Zones) (name : String) : Except Failure (Option Record) :=
  match findZone zones name with
  | none => .ok none
  | some zone => findRecord name zone.records.elems

/-- The addresses that answer the queries for a name. -/
def servedIPs (zones : Zones) (name : String) : Option (List IP) :=
  match servedRecord zones name with
  | .error _ => none
  | .ok none => some []
  | .ok (some rec) => rec.servedIPs

theorem convertListener_some (name : String) (ttl : ℕ) {listener : String} {ip : IP}
    (h : literalIP listener = some ip) :
    convertListener name ttl listener = .ok (addressRR name ttl ip) := by
  unfold literalIP at h
  unfold convertListener
  cases hsplit : splitHostPort listener with
  | error e =>
    rw [hsplit] at h
    exact absurd h (by simp)
  | ok hp =>
    rw [hsplit] at h
    simp only [show parseIP hp.1 = some ip from h]

theorem convertListener_none (name : String) (ttl : ℕ) {listener : String}
    (h : literalIP listener = none) :
    ∃ msg, convertListener name ttl listener = .error (.exit msg) := by
  unfold literalIP at h
  unfold convertListener
  cases hsplit : splitHostPort listener with
  | error e => exact ⟨_, rfl⟩
  | ok hp =>
    rw [hsplit] at h
    simp only [show parseIP hp.1 = none from h]
    exact ⟨_, rfl⟩

/-- **`LB.Convert` on its listeners.**  It returns one record for each address, or, when
some host is not the text of an address, ends the process. -/
theorem convert_spec (lb : LBRecord) (name : String) :
    match lb.listeners.mapM literalIP with
    | some ips => lb.convert name = .ok (ips.map (addressRR name lb.ttl))
    | none => ∃ msg, lb.convert name = .error (.exit msg) := by
  unfold LBRecord.convert
  induction lb.listeners with
  | nil => rfl
  | cons listener listeners ih =>
    rw [List.mapM_cons, List.mapM_cons]
    cases hip : literalIP listener with
    | none =>
      obtain ⟨msg, hmsg⟩ := convertListener_none name lb.ttl hip
      rw [hmsg]
      exact ⟨msg, rfl⟩
    | some ip =>
      rw [convertListener_some name lb.ttl hip]
      cases hips : listeners.mapM literalIP with
      | none =>
        rw [hips] at ih
        obtain ⟨msg, hmsg⟩ := ih
        rw [hmsg]
        exact ⟨msg, rfl⟩
      | some ips =>
        rw [hips] at ih
        rw [show listeners.mapM (convertListener name lb.ttl) = _ from ih]
        rfl

theorem addressRR_address (name : String) (ttl : ℕ) (ip : IP) :
    (addressRR name ttl ip).address = some ip := by
  unfold addressRR
  cases (to4 ip).isSome <;> rfl

/-- Every converted address is of one of the two types. -/
theorem matchesType_addressRR (name : String) (ttl : ℕ) (ip : IP) :
    matchesType .a (addressRR name ttl ip) = true ∨
      matchesType .aaaa (addressRR name ttl ip) = true := by
  unfold addressRR
  cases (to4 ip).isSome
  · exact Or.inr rfl
  · exact Or.inl rfl

theorem mem_addresses {rrs : List RR} {ip : IP} :
    ip ∈ addresses rrs ↔ ∃ rr ∈ rrs, rr.address = some ip :=
  List.mem_filterMap

theorem addresses_addressRR (name : String) (ttl : ℕ) (ips : List IP) :
    addresses (ips.map (addressRR name ttl)) = ips := by
  unfold addresses
  rw [List.filterMap_map]
  have hfun : RR.address ∘ addressRR name ttl = some := by
    funext ip
    exact addressRR_address name ttl ip
  rw [hfun, List.filterMap_some]

/-- Of one of the types A and AAAA. -/
def IsAddress (rr : RR) : Prop := matchesType .a rr = true ∨ matchesType .aaaa rr = true

/-- **What a value is converted to.** -/
theorem convertValue_spec (name : String) (value : Option RecordValue) :
    match valueIPs value with
    | some ips =>
      ∃ rrs, convertValue name value = .ok rrs ∧ addresses rrs = ips ∧ ∀ rr ∈ rrs, IsAddress rr
    | none => ∃ e, convertValue name value = .error e := by
  match value with
  | none => exact ⟨_, rfl⟩
  | some (.a a) =>
    refine ⟨a.convert name, rfl, ?_, ?_⟩
    · unfold addresses ARecord.convert
      rw [List.filterMap_map]
      exact List.filterMap_some
    · intro rr hrr
      obtain ⟨ip, -, rfl⟩ := List.mem_map.mp hrr
      exact Or.inl rfl
  | some (.lb lb) =>
    have hspec := convert_spec lb name
    show match lb.listeners.mapM literalIP with
      | some ips => _
      | none => _
    cases hips : lb.listeners.mapM literalIP with
    | none =>
      rw [hips] at hspec
      obtain ⟨msg, hmsg⟩ := hspec
      exact ⟨_, hmsg⟩
    | some ips =>
      rw [hips] at hspec
      refine ⟨_, hspec, addresses_addressRR name lb.ttl ips, ?_⟩
      intro rr hrr
      obtain ⟨ip, -, rfl⟩ := List.mem_map.mp hrr
      exact matchesType_addressRR name lb.ttl ip

/-- The two queries together give all addresses. -/
theorem mem_addresses_filter {rrs : List RR} (h : ∀ rr ∈ rrs, IsAddress rr) (ip : IP) :
    ip ∈ addresses (rrs.filter (matchesType .a) ++ rrs.filter (matchesType .aaaa)) ↔
      ip ∈ addresses rrs := by
  rw [mem_addresses, mem_addresses]
  constructor
  · rintro ⟨rr, hrr, haddress⟩
    rcases List.mem_append.mp hrr with hmem | hmem
    · exact ⟨rr, List.mem_of_mem_filter hmem, haddress⟩
    · exact ⟨rr, List.mem_of_mem_filter hmem, haddress⟩
  · rintro ⟨rr, hrr, haddress⟩
    refine ⟨rr, List.mem_append.mpr ?_, haddress⟩
    rcases h rr hrr with htype | htype
    · exact Or.inl (List.mem_filter.mpr ⟨hrr, htype⟩)
    · exact Or.inr (List.mem_filter.mpr ⟨hrr, htype⟩)

/-- The queries of the types A and AAAA are both answered, with these addresses in the
answers; or, for `none`, the query of type A fails. -/
def AnsweredWith (answer : RRType → Except Failure (List RR)) : Option (List IP) → Prop
  | some ips => ∃ as aaaas, answer .a = .ok as ∧ answer .aaaa = .ok aaaas ∧
      ∀ ip, ip ∈ addresses (as ++ aaaas) ↔ ip ∈ ips
  | none => ∃ e, answer .a = .error e

/-- **The answers made from a record.** -/
theorem answerRecord_spec (name : String) (rec : Record) :
    AnsweredWith (fun qtype => answerRecord name qtype rec) rec.servedIPs := by
  have hspec := convertValue_spec name rec.value
  unfold Record.servedIPs answerRecord
  cases rec.type with
  | other type => exact ⟨[], [], rfl, rfl, fun ip => Iff.rfl⟩
  | a =>
    dsimp only
    revert hspec
    cases valueIPs rec.value with
    | none => exact fun hspec => hspec
    | some ips =>
      rintro ⟨rrs, hrrs, rfl, -⟩
      refine ⟨rrs, [], hrrs, rfl, fun ip => ?_⟩
      rw [List.append_nil]
  | lb =>
    dsimp only
    revert hspec
    cases valueIPs rec.value with
    | none =>
      rintro ⟨e, he⟩
      exact ⟨e, by rw [he]; rfl⟩
    | some ips =>
      rintro ⟨rrs, hrrs, rfl, htype⟩
      -- each of the two queries gets its own half of the same conversion
      exact ⟨_, _, by rw [hrrs]; rfl, by rw [hrrs]; rfl, mem_addresses_filter htype⟩

/-- A zone answers a query that is neither for the SOA nor for the name servers from the first
record of the name. -/
theorem answerZone_eq {zone : Zone} {q : Question} (hsoa : q.qtype ≠ .soa) (hns : q.qtype ≠ .ns) :
    answerZone zone q = findRecord q.name zone.records.elems >>= fun
      | none => .ok []
      | some rec => answerRecord q.name q.qtype rec := by
  unfold answerZone
  split
  next h => exact absurd h hsoa
  next h => exact absurd h hns
  next => rfl

/-- A query that is neither for the SOA nor for the name servers goes to the record. -/
theorem answers_eq {zones : Zones} {q : Question} (hsoa : q.qtype ≠ .soa) (hns : q.qtype ≠ .ns) :
    answers zones q = servedRecord zones q.name >>= fun
      | none => .ok []
      | some rec => answerRecord q.name q.qtype rec := by
  unfold answers servedRecord
  cases findZone zones q.name with
  | none => rfl
  | some zone => exact answerZone_eq hsoa hns

theorem AnsweredWith.congr {answer answer' : RRType → Except Failure (List RR)}
    {ips : Option (List IP)} (h : AnsweredWith answer ips) (ha : answer' .a = answer .a)
    (haaaa : answer' .aaaa = answer .aaaa) : AnsweredWith answer' ips := by
  cases ips with
  | none =>
    obtain ⟨e, he⟩ := h
    exact ⟨e, ha.trans he⟩
  | some ips =>
    obtain ⟨as, aaaas, h1, h2, h3⟩ := h
    exact ⟨as, aaaas, ha.trans h1, haaaa.trans h2, h3⟩

/-- **The answers to a name.** -/
theorem answers_spec (zones : Zones) (name : String) :
    AnsweredWith (fun qtype => answers zones ⟨name, qtype⟩) (servedIPs zones name) := by
  have ha : answers zones ⟨name, .a⟩ = _ := answers_eq (by simp) (by simp)
  have haaaa : answers zones ⟨name, .aaaa⟩ = _ := answers_eq (by simp) (by simp)
  unfold servedIPs
  cases hrec : servedRecord zones name with
  | error e =>
    rw [hrec] at ha
    exact ⟨e, ha⟩
  | ok found =>
    rw [hrec] at ha haaaa
    cases found with
    | none => exact ⟨[], [], ha, haaaa, fun ip => Iff.rfl⟩
    | some rec => exact (answerRecord_spec name rec).congr ha haaaa

theorem mapM_literalIP_none {listeners : List String} {listener : String}
    (hmem : listener ∈ listeners) (hnot : literalIP listener = none) :
    listeners.mapM literalIP = none := by
  induction listeners with
  | nil => exact absurd hmem List.not_mem_nil
  | cons x xs ih =>
    rw [List.mapM_cons]
    rcases List.mem_cons.mp hmem with rfl | htail
    · rw [hnot]
      rfl
    · rw [ih htail]
      cases literalIP x <;> rfl

end Border
