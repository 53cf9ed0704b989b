/-
# Names, data and letter case

Which names exist in a map of zones, for which queries there are data, and what the DNS
server makes of the difference.

* `findZone_own` : a zone is found under its own name;
* `serveDNS_replies_iff` : which queries get a reply at all;
* `nameError_iff` : a name error says that a name does not exist exactly for the queries whose
  name has data of the asked type.  The server gives it for every query without answers;
* `letterCase_iff` : which two spellings of a name get the same answers.  Names are compared
  letter for letter.
-/
import Border.DnsLookup

namespace Border

open Dns GoJson GoMap NetAddr

/-! ## The zone that a name matches -/

/-- The zone under the longest suffix of the name that is a key, and that key. -/
def Matches (zones : Zones) (name key : String) (zone : Zone) : Prop :=
  ∃ suffix, suffix <:+ splitDomainName name ∧ suffix ≠ [] ∧ zoneKey suffix = key ∧
    zones.lookup key = some (some zone) ∧
    ∀ longer, longer <:+ splitDomainName name → suffix.length < longer.length →
      zones.lookup (zoneKey longer) = none

theorem findZone_eq_some_iff {zones : Zones} {name : String} {zone : Zone} :
    findZone zones name = some zone ↔ ∃ key, Matches zones name key zone := by
  unfold findZone
  rw [← closestZone_iff]
  constructor
  · rintro (@⟨suffix, _, hsuffix, hne, hzone, hlongest⟩)
    exact ⟨zoneKey suffix, suffix, hsuffix, hne, rfl, hzone, hlongest⟩
  · rintro ⟨key, suffix, hsuffix, hne, rfl, hzone, hlongest⟩
    exact .found hsuffix hne hzone hlongest

theorem splitLabels_ne_nil (escaped : Bool) (label text : List Char) :
    splitLabels escaped label text ≠ [] := by
  fun_induction splitLabels escaped label text with
  | case4 _ _ _ _ _ _ ih => exact ih
  | _ => exact List.cons_ne_nil _ _

/-- The labels of a text that ends in a dot, put together again. -/
theorem intercalate_splitLabels {text : List Char} (hplain : '\\' ∉ text)
    (hdot : text.getLast? = some '.') (label : List Char) :
    ['.'].intercalate (splitLabels false label text) ++ ['.'] = label.reverse ++ text := by
  induction text generalizing label with
  | nil => cases hdot
  | cons c rest ih =>
    have hc : c ≠ '\\' := fun h => hplain (h ▸ List.mem_cons_self)
    have hrest : '\\' ∉ rest := fun h => hplain (List.mem_cons_of_mem c h)
    -- the last dot ends its label and begins none
    cases rest with
    | nil =>
      obtain rfl : c = '.' := Option.some.inj hdot
      simp [splitLabels]
    | cons d rest =>
      rw [List.getLast?_cons_cons] at hdot
      by_cases hdotted : c = '.'
      · subst hdotted
        have hlabels := splitLabels_ne_nil false [] (d :: rest)
        rw [splitLabels, List.intercalate_cons_of_ne_nil hlabels, List.append_assoc,
          ih hrest hdot []]
        · simp
        · simp
      · have hsplit : splitLabels false label (c :: d :: rest)
            = splitLabels false (c :: label) (d :: rest) := by
          rw [splitLabels]
          · simp [hc]
          · simp
          · simp [hdotted]
        rw [hsplit, ih hrest hdot (c :: label)]
        simp

/-- The labels of a qualified name make up the name. -/
theorem zoneKey_splitDomainName {name : String} (hplain : '\\' ∉ name.toList) (hdot : HasDot name)
    (hroot : name ≠ ".") : splitDomainName name ≠ [] ∧ zoneKey (splitDomainName name) = name := by
  have hne : ¬ (name = "" ∨ name = ".") := by
    rintro (rfl | rfl)
    · cases hdot
    · exact hroot rfl
  have hsplit : splitDomainName name = (splitLabels false [] name.toList).map String.ofList :=
    if_neg hne
  refine ⟨?_, String.toList_inj.mp ?_⟩
  · rw [hsplit]
    exact fun h => splitLabels_ne_nil _ _ _ (List.map_eq_nil_iff.mp h)
  · have hjoin := intercalate_splitLabels hplain hdot []
    rw [zoneKey, hsplit, String.toList_append, String.toList_intercalate]
    simpa using hjoin

/-- **A zone is found under its own name.** -/
theorem findZone_own {zones : Zones} {name : String} {zone : Zone} (hplain : '\\' ∉ name.toList)
    (hdot : HasDot name) (hroot : name ≠ ".") (hzone : zones.lookup name = some (some zone)) :
    findZone zones name = some zone := by
  obtain ⟨hne, hkey⟩ := zoneKey_splitDomainName hplain hdot hroot
  exact findZone_eq_some_iff.mpr ⟨name, _, List.suffix_rfl, hne, hkey, hzone,
    fun longer hlonger hlt => absurd hlonger.length_le (Nat.not_le.mpr hlt)⟩

/-- What holds of the zone that a name matches holds of the zone that is found. -/
theorem forall_matches_iff {zones : Zones} {name : String} {P : Zone → Prop} :
    (∀ key zone, Matches zones name key zone → P zone) ↔
      ∀ zone, findZone zones name = some zone → P zone := by
  constructor
  · intro h zone hzone
    obtain ⟨key, hmatch⟩ := findZone_eq_some_iff.mp hzone
    exact h key zone hmatch
  · exact fun h key zone hmatch => h zone (findZone_eq_some_iff.mpr ⟨key, hmatch⟩)

theorem exists_matches_iff {zones : Zones} {name : String} {P : Zone → Prop} :
    (∃ key zone, Matches zones name key zone ∧ P zone) ↔
      ∃ zone, findZone zones name = some zone ∧ P zone := by
  constructor
  · rintro ⟨key, zone, hmatch, hzone⟩
    exact ⟨zone, findZone_eq_some_iff.mpr ⟨key, hmatch⟩, hzone⟩
  · rintro ⟨zone, hfound, hzone⟩
    obtain ⟨key, hmatch⟩ := findZone_eq_some_iff.mp hfound
    exact ⟨key, zone, hmatch, hzone⟩

/-! ## Queries that get a reply -/

/-- Every listener has the text of an address as its host. -/
def LBRecord.HasAddresses (lb : LBRecord) : Prop :=
  ∀ listener ∈ lb.listeners, literalIP listener ≠ none

/-- The value of a record that a query reads can be converted. -/
def Record.Replies (rec : Record) (qtype : RRType) : Prop :=
  match rec.type, rec.value with
  | .other _, _ => True
  | .a, none => qtype ≠ .a
  | .a, some (.a _) => True
  | .a, some (.lb lb) => qtype = .a → lb.HasAddresses
  | .lb, none => False
  | .lb, some (.a _) => True
  | .lb, some (.lb lb) => lb.HasAddresses

/-- The zone has what a query reads. -/
def Zone.Replies (zone : Zone) (q : Question) : Prop :=
  match q.qtype with
  | .soa => zone.soa ≠ none
  | .ns => zone.ns ≠ none
  | qtype =>
    none ∉ zone.records.elems.takeWhile (fun r => r.map Record.name ≠ some q.name) ∧
      ∀ rec, zone.recordNamed q.name = some rec → rec.Replies qtype

/-- The query makes the server follow no nil pointer and convert no listener that is not an
address. -/
def Replies (zones : Zones) (q : Question) : Prop :=
  ∀ key zone, Matches zones q.name key zone → zone.Replies q

/-! ## Names with data -/

/-- The type of the records for an address. -/
def addressType (ip : IP) : RRType := if isIPv4 ip then .a else .aaaa

/-- The record has data of the asked type. -/
def Record.HasData (rec : Record) (qtype : RRType) : Prop :=
  match rec.type, rec.value with
  | .a, some (.a a) => qtype = .a ∧ a.addresses ≠ []
  | .a, some (.lb lb) => qtype = .a ∧ lb.listeners ≠ []
  | .lb, some (.a a) => qtype = .a ∧ a.addresses ≠ []
  | .lb, some (.lb lb) =>
    ∃ listener ∈ lb.listeners, ∃ ip, literalIP listener = some ip ∧ addressType ip = qtype
  | _, _ => False

/-- The zone has data for the query: its SOA, a name server, or data of the first record of
the name. -/
def Zone.HasData (zone : Zone) (q : Question) : Prop :=
  match q.qtype with
  | .soa => zone.soa ≠ none
  | .ns => ∃ ns, zone.ns = some ns ∧ ns.servers ≠ []
  | qtype => ∃ rec, zone.recordNamed q.name = some rec ∧ rec.HasData qtype

/-- The zone that the name matches has data for the query. -/
def HasData (zones : Zones) (q : Question) : Prop :=
  ∃ key zone, Matches zones q.name key zone ∧ zone.HasData q

/-- The name exists: it is the key of the zone it matches, or a record of that zone has it. -/
def NameExists (zones : Zones) (name : String) : Prop :=
  ∃ key zone, Matches zones name key zone ∧
    (name = key ∨ ∃ rec, some rec ∈ zone.records.elems ∧ rec.name = name)

/-! ## The answers of a record -/

theorem LBRecord.hasAddresses_iff {lb : LBRecord} :
    lb.HasAddresses ↔ ∃ ips, lb.listeners.mapM literalIP = some ips :=
  mapM_literalIP_isSome.symm

/-- The addresses among the converted listeners of the asked type. -/
theorem filter_addressRR_ne_nil {name : String} {ttl : ℕ} {qtype : RRType} {ips : List IP} :
    (ips.map (addressRR name ttl)).filter (matchesType qtype) ≠ [] ↔
      ∃ ip ∈ ips, addressType ip = qtype := by
  have htype : ∀ ip, matchesType qtype (addressRR name ttl ip) = true ↔ addressType ip = qtype := by
    intro ip
    unfold addressRR addressType isIPv4
    cases (to4 ip).isSome
    · exact decide_eq_true_iff
    · exact decide_eq_true_iff
  rw [Ne, List.filter_eq_nil_iff]
  constructor
  · intro h
    push Not at h
    obtain ⟨rr, hrr, hmatch⟩ := h
    obtain ⟨ip, hip, rfl⟩ := List.mem_map.mp hrr
    exact ⟨ip, hip, (htype ip).mp hmatch⟩
  · rintro ⟨ip, hip, hip'⟩ h
    exact h _ (List.mem_map_of_mem hip) ((htype ip).mpr hip')

/-- The addresses of the listeners, one by one. -/
theorem exists_mem_mapM_literalIP {listeners : List String} {ips : List IP}
    (hips : listeners.mapM literalIP = some ips) (qtype : RRType) :
    (∃ ip ∈ ips, addressType ip = qtype) ↔
      ∃ listener ∈ listeners, ∃ ip, literalIP listener = some ip ∧ addressType ip = qtype := by
  induction listeners generalizing ips with
  | nil =>
    obtain rfl : [] = ips := Option.some.inj hips
    simp
  | cons l ls ih =>
    rw [List.mapM_cons] at hips
    obtain ⟨ip, hip, htail⟩ := Option.bind_eq_some_iff.mp hips
    obtain ⟨rest, hrest, hcons⟩ := Option.bind_eq_some_iff.mp htail
    obtain rfl := Option.some.inj hcons
    simp only [List.mem_cons, exists_eq_or_imp, hip, Option.some.injEq, exists_eq_left']
    exact or_congr Iff.rfl (ih hrest)

/-- **The answers made from a record**: whether there are any, and whether they are empty. -/
theorem answerRecord_data (name : String) (qtype : RRType) (rec : Record) :
    ((∃ rrs, answerRecord name qtype rec = .ok rrs) ↔ rec.Replies qtype) ∧
    ∀ rrs, answerRecord name qtype rec = .ok rrs → (rrs ≠ [] ↔ rec.HasData qtype) := by
  unfold answerRecord Record.Replies Record.HasData
  match rec.type, rec.value with
  | .other _, _ => simp
  | .a, none => by_cases hq : qtype = .a <;> simp [hq, convertValue]
  | .a, some (.a a) => by_cases hq : qtype = .a <;> simp [hq, convertValue, ARecord.convert]
  | .a, some (.lb lb) =>
    by_cases hq : qtype = .a
    · simp only [hq, if_true, convertValue, forall_const, true_and]
      refine ⟨?_, fun rrs h => ?_⟩
      · rw [LBRecord.hasAddresses_iff]
        constructor
        · rintro ⟨rrs, h⟩
          obtain ⟨ips, hips, -⟩ := convert_eq_ok_iff.mp h
          exact ⟨ips, hips⟩
        · rintro ⟨ips, hips⟩
          exact ⟨_, convert_eq_ok_iff.mpr ⟨ips, hips, rfl⟩⟩
      · have hnil : lb.convert name = .ok [] ↔ lb.listeners = [] := convert_eq_nil_iff
        rw [Ne, Ne, ← hnil, h, Except.ok.injEq]
    · simp [hq]
  | .lb, none => simp [convertValue, Except.map]
  | .lb, some (.a a) =>
    simp only [convertValue, Except.map]
    refine ⟨⟨fun _ => trivial, fun _ => ⟨_, rfl⟩⟩, fun rrs h => ?_⟩
    rw [← Except.ok.inj h, Ne, filter_aConvert_eq_nil_iff (q := ⟨name, qtype⟩)]
    push Not
    rfl
  | .lb, some (.lb lb) =>
    refine ⟨?_, fun rrs h => ?_⟩
    · show (∃ rrs, (lb.convert name).map _ = .ok rrs) ↔ lb.HasAddresses
      rw [LBRecord.hasAddresses_iff]
      constructor
      · rintro ⟨rrs, h⟩
        obtain ⟨converted, hconverted, -⟩ := map_ok h
        obtain ⟨ips, hips, -⟩ := convert_eq_ok_iff.mp hconverted
        exact ⟨ips, hips⟩
      · rintro ⟨ips, hips⟩
        exact ⟨_, by rw [convert_eq_ok_iff.mpr ⟨ips, hips, rfl⟩]; rfl⟩
    · obtain ⟨converted, hconverted, rfl⟩ := map_ok h
      obtain ⟨ips, hips, rfl⟩ := convert_eq_ok_iff.mp hconverted
      rw [filter_addressRR_ne_nil, exists_mem_mapM_literalIP hips]

/-! ## The answers of a zone -/

/-- A query that is neither for the SOA nor for the name servers, definition by definition. -/
theorem record_query (zone : Zone) {q : Question} (hsoa : q.qtype ≠ .soa) (hns : q.qtype ≠ .ns) :
    (zone.Replies q ↔
      none ∉ zone.records.elems.takeWhile (fun r => r.map Record.name ≠ some q.name) ∧
        ∀ rec, zone.recordNamed q.name = some rec → rec.Replies q.qtype) ∧
    (zone.HasData q ↔ ∃ rec, zone.recordNamed q.name = some rec ∧ rec.HasData q.qtype) := by
  constructor
  · unfold Zone.Replies
    split
    next h => exact absurd h hsoa
    next h => exact absurd h hns
    next => exact Iff.rfl
  · unfold Zone.HasData
    split
    next h => exact absurd h hsoa
    next h => exact absurd h hns
    next => exact Iff.rfl

/-- **The answers of a zone**: whether there are any, and whether they are empty. -/
theorem answerZone_data (zone : Zone) (q : Question) :
    ((∃ rrs, answerZone zone q = .ok rrs) ↔ zone.Replies q) ∧
    ∀ rrs, answerZone zone q = .ok rrs → (rrs ≠ [] ↔ zone.HasData q) := by
  by_cases hsoa : q.qtype = .soa
  · unfold answerZone Zone.Replies Zone.HasData
    rw [hsoa]
    cases zone.soa with
    | none => simp
    | some soa => simp [SOA.convert]
  · by_cases hns : q.qtype = .ns
    · unfold answerZone Zone.Replies Zone.HasData
      rw [hns]
      cases zone.ns with
      | none => simp
      | some ns => simp [NS.convert]
    · obtain ⟨hreplies, hdata⟩ := record_query zone hsoa hns
      rw [answerZone_eq hsoa hns, hreplies, hdata]
      refine ⟨⟨?_, ?_⟩, fun rrs h => ?_⟩
      · rintro ⟨rrs, h⟩
        obtain ⟨found, hfound, hrec⟩ := bind_ok h
        obtain ⟨hnil, hnamed⟩ := (findRecord_eq_ok_iff _ _ _).mp hfound
        refine ⟨hnil, fun rec hrec' => ?_⟩
        obtain rfl : found = some rec := hnamed.symm.trans hrec'
        exact (answerRecord_data q.name q.qtype rec).1.mp ⟨rrs, hrec⟩
      · rintro ⟨hnil, hrec⟩
        cases hnamed : zone.recordNamed q.name with
        | none =>
          rw [(findRecord_eq_ok_iff _ _ _).mpr ⟨hnil, hnamed⟩]
          exact ⟨[], rfl⟩
        | some rec =>
          rw [(findRecord_eq_ok_iff _ _ _).mpr ⟨hnil, hnamed⟩]
          exact (answerRecord_data q.name q.qtype rec).1.mpr (hrec rec hnamed)
      · obtain ⟨found, hfound, hrec⟩ := bind_ok h
        obtain ⟨-, hnamed⟩ := (findRecord_eq_ok_iff _ _ _).mp hfound
        have hnamed : zone.recordNamed q.name = found := hnamed
        rw [hnamed]
        cases found with
        | none =>
          rw [← Except.ok.inj hrec]
          simp
        | some rec =>
          rw [(answerRecord_data q.name q.qtype rec).2 rrs hrec]
          simp

/-- **The answers of the server**: whether there are any, and whether they are empty. -/
theorem answers_data (zones : Zones) (q : Question) :
    ((∃ rrs, answers zones q = .ok rrs) ↔ Replies zones q) ∧
    ∀ rrs, answers zones q = .ok rrs → (rrs ≠ [] ↔ HasData zones q) := by
  unfold answers Replies HasData
  rw [forall_matches_iff, exists_matches_iff]
  cases findZone zones q.name with
  | none =>
    refine ⟨⟨fun _ zone hzone => absurd hzone (by simp), fun _ => ⟨[], rfl⟩⟩, fun rrs h => ?_⟩
    rw [← Except.ok.inj h]
    simp
  | some zone =>
    simp only [Option.some.injEq, forall_eq', exists_eq_left']
    exact answerZone_data zone q

/-! ## Name errors -/

/-- **Which queries get a reply.** -/
theorem serveDNS_replies_iff (zones : Zones) (q : Question) (more : List Question) :
    (∃ r, serveDNS zones (q :: more) = .ok r) ↔ Replies zones q := by
  rw [← (answers_data zones q).1]
  constructor
  · rintro ⟨r, hr⟩
    obtain ⟨rrs, hrrs, -⟩ := map_ok hr
    exact ⟨rrs, hrrs⟩
  · rintro ⟨rrs, hrrs⟩
    exact ⟨reply rrs, by rw [serveDNS, hrrs]; rfl⟩

theorem reply_rcode (rrs : List RR) : (reply rrs).rcode = .nameError ↔ rrs = [] := by
  unfold reply
  by_cases h : rrs = []
  · simp [h]
  · simp [h]

/-- A reply is a name error exactly when the query has no data. -/
theorem rcode_of_serveDNS {zones : Zones} {q : Question} {more : List Question} {r : Dns.Reply}
    (h : serveDNS zones (q :: more) = .ok r) :
    (r.rcode = .nameError ↔ ¬ HasData zones q) ∧ (r.answer = [] ↔ ¬ HasData zones q) := by
  obtain ⟨rrs, hrrs, rfl⟩ := map_ok h
  rw [reply_rcode, reply_answer, ← (answers_data zones q).2 rrs hrrs, not_not]
  exact ⟨Iff.rfl, Iff.rfl⟩

/-- A reply is a name error only when the name does not exist; a name that exists and has no
data of the asked type gets a reply without answers that is not one. -/
def NameErrorsOnly (zones : Zones) (q : Question) (more : List Question) : Prop :=
  ∀ r, serveDNS zones (q :: more) = .ok r →
    (r.rcode = .nameError → ¬ NameExists zones q.name) ∧
    (NameExists zones q.name → ¬ HasData zones q → r.answer = [] ∧ r.rcode ≠ .nameError)

/-- **When a name error says what it should.**  For every map of zones and every query: if the
query gets a reply and its name exists, the name has data of the asked type. -/
theorem nameError_iff (zones : Zones) (q : Question) (more : List Question) :
    NameErrorsOnly zones q more ↔
      (Replies zones q → NameExists zones q.name → HasData zones q) := by
  constructor
  · intro h hreplies hexists
    obtain ⟨r, hr⟩ := (serveDNS_replies_iff zones q more).mpr hreplies
    by_contra hnodata
    exact (h r hr).1 ((rcode_of_serveDNS hr).1.mpr hnodata) hexists
  · intro h r hr
    have hreplies := (serveDNS_replies_iff zones q more).mp ⟨r, hr⟩
    refine ⟨fun hrcode hexists => ?_, fun hexists hnodata => ?_⟩
    · exact (rcode_of_serveDNS hr).1.mp hrcode (h hreplies hexists)
    · exact absurd (h hreplies hexists) hnodata

theorem matches_balancer (listener : String) :
    Matches (balancerZones listener) "balancer.test.home.arpa." "test.home.arpa."
      (balancerZone listener) := by
  have hlabels : splitDomainName "balancer.test.home.arpa."
      = ["balancer", "test", "home", "arpa"] := by
    decide +kernel
  rw [Matches, hlabels]
  refine ⟨["test", "home", "arpa"], by decide, by simp, rfl, rfl, fun longer hlonger hlen => ?_⟩
  rcases List.suffix_cons_iff.mp hlonger with rfl | hlonger
  · rfl
  · have hle := hlonger.length_le
    simp only [List.length_cons, List.length_nil] at hlen hle
    omega

/-- **A name error for a name that exists.**  The load balancer of `example.yaml` on an IPv4
address, asked for its IPv6 addresses. -/
theorem nameError_existing :
    NameExists (balancerZones "127.0.0.1:8000") "balancer.test.home.arpa." ∧
    serveDNS (balancerZones "127.0.0.1:8000") [⟨"balancer.test.home.arpa.", .aaaa⟩]
      = .ok ⟨.nameError, false, false, []⟩ ∧
    ¬ NameErrorsOnly (balancerZones "127.0.0.1:8000") ⟨"balancer.test.home.arpa.", .aaaa⟩ [] := by
  have hexists : NameExists (balancerZones "127.0.0.1:8000") "balancer.test.home.arpa." :=
    ⟨_, _, matches_balancer _, Or.inr ⟨balancerRecord _, List.mem_singleton.mpr rfl, rfl⟩⟩
  have hserve : serveDNS (balancerZones "127.0.0.1:8000") [⟨"balancer.test.home.arpa.", .aaaa⟩]
      = .ok ⟨.nameError, false, false, []⟩ := by decide +kernel
  exact ⟨hexists, hserve, fun h => (h _ hserve).1 rfl hexists⟩

/-! ## Letter case -/

/-- The name in lower case; `Char.toLower` is about ASCII letters only. -/
def foldCase (name : String) : String := String.ofList (name.toList.map Char.toLower)

/-- No two records have names that differ in the case of letters only. -/
def NamesFold (zones : Zones) : Prop :=
  ∀ key₁ key₂ zone₁ zone₂ rec₁ rec₂, zones.lookup key₁ = some (some zone₁) →
    zones.lookup key₂ = some (some zone₂) → some rec₁ ∈ zone₁.records.elems →
    some rec₂ ∈ zone₂.records.elems → foldCase rec₁.name = foldCase rec₂.name →
    rec₁.name = rec₂.name

/-- The resource record under another owner name. -/
def ownedBy (name : String) : RR → RR
  | .a hdr ip => .a { hdr with name := name } ip
  | .aaaa hdr ip => .aaaa { hdr with name := name } ip
  | .ns hdr server => .ns { hdr with name := name } server
  | .soa hdr server mbox serial refresh retry expire minTTL =>
    .soa { hdr with name := name } server mbox serial refresh retry expire minTTL

/-- Both names get a reply, with the same response code and the same answers up to the owner
name. -/
def AnsweredAlike (zones : Zones) (name₁ name₂ : String) (qtype : RRType) : Prop :=
  ∃ r₁ r₂, serveDNS zones [⟨name₁, qtype⟩] = .ok r₁ ∧ serveDNS zones [⟨name₂, qtype⟩] = .ok r₂ ∧
    r₁.rcode = r₂.rcode ∧ r₁.answer.map (ownedBy name₂) = r₂.answer

theorem answeredAlike_iff {zones : Zones} {name₁ name₂ : String} {qtype : RRType} :
    AnsweredAlike zones name₁ name₂ qtype ↔
      ∃ rrs₁ rrs₂, answers zones ⟨name₁, qtype⟩ = .ok rrs₁ ∧
        answers zones ⟨name₂, qtype⟩ = .ok rrs₂ ∧ rrs₁.map (ownedBy name₂) = rrs₂ := by
  constructor
  · rintro ⟨r₁, r₂, h₁, h₂, -, hanswer⟩
    obtain ⟨rrs₁, hrrs₁, rfl⟩ := map_ok h₁
    obtain ⟨rrs₂, hrrs₂, rfl⟩ := map_ok h₂
    rw [reply_answer, reply_answer] at hanswer
    exact ⟨rrs₁, rrs₂, hrrs₁, hrrs₂, hanswer⟩
  · rintro ⟨rrs₁, rrs₂, h₁, h₂, rfl⟩
    refine ⟨reply rrs₁, _, by rw [serveDNS, h₁]; rfl, by rw [serveDNS, h₂]; rfl, ?_, ?_⟩
    · -- as many answers to both, so both are name errors or neither is
      unfold reply
      by_cases hnil : rrs₁ = []
      · simp [hnil]
      · simp [hnil]
    · rw [reply_answer, reply_answer]

/-! ### Owner names -/

theorem ownedBy_addressRR (name : String) (ttl : ℕ) (ip : IP) :
    ownedBy name (addressRR name ttl ip) = addressRR name ttl ip := by
  unfold addressRR
  cases (to4 ip).isSome <;> rfl

/-- Every answer made from a record has the name that was asked for. -/
theorem ownedBy_answerRecord {name : String} {qtype : RRType} {rec : Record} {rrs : List RR}
    (h : answerRecord name qtype rec = .ok rrs) : ∀ rr ∈ rrs, ownedBy name rr = rr := by
  have hvalue : ∀ rrs, convertValue name rec.value = .ok rrs →
      ∀ rr ∈ rrs, ownedBy name rr = rr := by
    intro rrs hrrs rr hrr
    match hv : rec.value with
    | none =>
      rw [hv] at hrrs
      exact absurd hrrs (by simp [convertValue])
    | some (.a a) =>
      rw [hv] at hrrs
      rw [← Except.ok.inj hrrs] at hrr
      obtain ⟨ip, -, rfl⟩ := List.mem_map.mp hrr
      rfl
    | some (.lb lb) =>
      rw [hv] at hrrs
      obtain ⟨ips, -, rfl⟩ := convert_eq_ok_iff.mp hrrs
      obtain ⟨ip, -, rfl⟩ := List.mem_map.mp hrr
      exact ownedBy_addressRR name lb.ttl ip
  unfold answerRecord at h
  split at h
  · split_ifs at h with hq
    · exact hvalue rrs h
    · rw [← Except.ok.inj h]
      exact fun rr hrr => absurd hrr List.not_mem_nil
  · obtain ⟨converted, hconverted, rfl⟩ := map_ok h
    exact fun rr hrr => hvalue converted hconverted rr (List.mem_of_mem_filter hrr)
  · rw [← Except.ok.inj h]
    exact fun rr hrr => absurd hrr List.not_mem_nil

/-- The answers to a query for records have the name that was asked for. -/
theorem map_ownedBy_answers {zones : Zones} {q : Question} (hsoa : q.qtype ≠ .soa)
    (hns : q.qtype ≠ .ns) {rrs : List RR} (h : answers zones q = .ok rrs) :
    rrs.map (ownedBy q.name) = rrs := by
  rw [answers_eq hsoa hns] at h
  obtain ⟨found, -, hrec⟩ := bind_ok h
  have howned : ∀ rr ∈ rrs, ownedBy q.name rr = rr := by
    cases found with
    | none =>
      rw [← Except.ok.inj hrec]
      exact fun rr hrr => absurd hrr List.not_mem_nil
    | some rec => exact ownedBy_answerRecord hrec
  exact (List.map_congr_left howned).trans (List.map_id _)

/-! ### Which spellings are answered alike -/

/-- The name servers of a zone, with their time to live. -/
def Zone.nameServers (zone : Zone) : List (String × ℕ) :=
  match zone.ns with
  | none => []
  | some ns => ns.servers.map fun server => (server, ns.ttl)

/-- What is stored for the two spellings, each matched letter for letter, is the same: the
SOA or the name servers of the zones they match; and for the other types the spellings are the
same, or there are no data under either of them. -/
def StoredAlike (zones : Zones) (name₁ name₂ : String) (qtype : RRType) : Prop :=
  match qtype with
  | .soa => (findZone zones name₁).bind Zone.soa = (findZone zones name₂).bind Zone.soa
  | .ns => (findZone zones name₁).elim [] Zone.nameServers
      = (findZone zones name₂).elim [] Zone.nameServers
  | qtype => name₁ = name₂ ∨ (¬ HasData zones ⟨name₁, qtype⟩ ∧ ¬ HasData zones ⟨name₂, qtype⟩)

/-- The answers to a query for the SOA. -/
theorem answers_soa {zones : Zones} {name : String} {rrs : List RR}
    (h : answers zones ⟨name, .soa⟩ = .ok rrs) :
    rrs = ((findZone zones name).bind Zone.soa).elim [] fun soa => soa.convert name := by
  unfold answers at h
  cases hzone : findZone zones name with
  | none =>
    rw [hzone] at h
    exact (Except.ok.inj h).symm
  | some zone =>
    rw [hzone] at h
    show rrs = zone.soa.elim [] fun soa => soa.convert name
    simp only [answerZone] at h
    cases hsoa : zone.soa with
    | none =>
      rw [hsoa] at h
      exact absurd h (by simp)
    | some soa =>
      rw [hsoa] at h
      exact (Except.ok.inj h).symm

/-- The answers to a query for the name servers. -/
theorem answers_ns {zones : Zones} {name : String} {rrs : List RR}
    (h : answers zones ⟨name, .ns⟩ = .ok rrs) :
    rrs = ((findZone zones name).elim [] Zone.nameServers).map fun server =>
      .ns ⟨name, .ns, classINET, server.2⟩ server.1 := by
  unfold answers at h
  cases hzone : findZone zones name with
  | none =>
    rw [hzone] at h
    exact (Except.ok.inj h).symm
  | some zone =>
    rw [hzone] at h
    show rrs = zone.nameServers.map _
    simp only [answerZone] at h
    unfold Zone.nameServers
    cases hns : zone.ns with
    | none =>
      rw [hns] at h
      exact absurd h (by simp)
    | some ns =>
      rw [hns] at h
      rw [← Except.ok.inj h, NS.convert, List.map_map]
      rfl

theorem soa_convert_inj {soa₁ soa₂ : Option SOA} {name : String} :
    (soa₁.elim [] fun soa => soa.convert name) = (soa₂.elim [] fun soa => soa.convert name) ↔
      soa₁ = soa₂ := by
  constructor
  · intro h
    match soa₁, soa₂ with
    | none, none => rfl
    | none, some soa₂ => exact absurd h (by simp [SOA.convert])
    | some soa₁, none => exact absurd h (by simp [SOA.convert])
    | some ⟨_, _, _, _, _, _, _⟩, some ⟨_, _, _, _, _, _, _⟩ =>
      simp only [Option.elim, SOA.convert, List.cons.injEq, and_true, RR.soa.injEq] at h
      simp [h]
  · exact fun h => by rw [h]

/-- Two spellings that match letter for letter different records are not both in the map. -/
theorem not_hasData_of_fold {zones : Zones} (hfold : NamesFold zones) {name₁ name₂ : String}
    (hcase : foldCase name₁ = foldCase name₂) (hne : name₁ ≠ name₂) {qtype : RRType}
    (hsoa : qtype ≠ .soa) (hns : qtype ≠ .ns) (h₁ : HasData zones ⟨name₁, qtype⟩) :
    ¬ HasData zones ⟨name₂, qtype⟩ := by
  have hrecord : ∀ name, HasData zones ⟨name, qtype⟩ → ∃ key zone rec,
      zones.lookup key = some (some zone) ∧ some rec ∈ zone.records.elems ∧ rec.name = name := by
    rintro name ⟨key, zone, ⟨suffix, -, -, -, hzone, -⟩, hdata⟩
    obtain ⟨rec, hnamed, -⟩ := (record_query zone (q := ⟨name, qtype⟩) hsoa hns).2.mp hdata
    exact ⟨key, zone, rec, hzone, mem_of_recordNamed hnamed⟩
  intro h₂
  obtain ⟨key₁, zone₁, rec₁, hzone₁, hmem₁, rfl⟩ := hrecord name₁ h₁
  obtain ⟨key₂, zone₂, rec₂, hzone₂, hmem₂, rfl⟩ := hrecord name₂ h₂
  exact hne (hfold key₁ key₂ zone₁ zone₂ rec₁ rec₂ hzone₁ hzone₂ hmem₁ hmem₂ hcase)

section Alike

variable {zones : Zones} {name₁ name₂ : String} {rrs₁ rrs₂ : List RR}

/-- The answers for an SOA are the same when the entries are. -/
theorem alike_soa_iff (h₁ : answers zones ⟨name₁, .soa⟩ = .ok rrs₁)
    (h₂ : answers zones ⟨name₂, .soa⟩ = .ok rrs₂) :
    rrs₁.map (ownedBy name₂) = rrs₂ ↔ StoredAlike zones name₁ name₂ .soa := by
  rw [answers_soa h₁, answers_soa h₂]
  show _ ↔ (findZone zones name₁).bind Zone.soa = (findZone zones name₂).bind Zone.soa
  have howner : (((findZone zones name₁).bind Zone.soa).elim [] fun soa =>
        soa.convert name₁).map (ownedBy name₂)
      = ((findZone zones name₁).bind Zone.soa).elim [] fun soa => soa.convert name₂ := by
    cases (findZone zones name₁).bind Zone.soa <;> rfl
  rw [howner, soa_convert_inj]

/-- The answers for name servers are the same when the servers are. -/
theorem alike_ns_iff (h₁ : answers zones ⟨name₁, .ns⟩ = .ok rrs₁)
    (h₂ : answers zones ⟨name₂, .ns⟩ = .ok rrs₂) :
    rrs₁.map (ownedBy name₂) = rrs₂ ↔ StoredAlike zones name₁ name₂ .ns := by
  rw [answers_ns h₁, answers_ns h₂, List.map_map]
  show _ ↔ (findZone zones name₁).elim [] Zone.nameServers
    = (findZone zones name₂).elim [] Zone.nameServers
  have hinj : Function.Injective fun server : String × ℕ =>
      RR.ns ⟨name₂, .ns, classINET, server.2⟩ server.1 := by
    intro x y h
    simp only [RR.ns.injEq, RRHeader.mk.injEq, true_and] at h
    exact Prod.ext h.2 h.1
  exact (List.map_injective_iff.mpr hinj).eq_iff

/-- The answers from records are the same for one spelling, or when there are none. -/
theorem alike_record_iff (hfold : NamesFold zones) (hcase : foldCase name₁ = foldCase name₂)
    {qtype : RRType} (hsoa : qtype ≠ .soa) (hns : qtype ≠ .ns)
    (h₁ : answers zones ⟨name₁, qtype⟩ = .ok rrs₁)
    (h₂ : answers zones ⟨name₂, qtype⟩ = .ok rrs₂) :
    rrs₁.map (ownedBy name₂) = rrs₂ ↔ StoredAlike zones name₁ name₂ qtype := by
  have hiff : StoredAlike zones name₁ name₂ qtype ↔ name₁ = name₂ ∨
      (¬ HasData zones ⟨name₁, qtype⟩ ∧ ¬ HasData zones ⟨name₂, qtype⟩) := by
    unfold StoredAlike
    split
    next => exact absurd rfl hsoa
    next => exact absurd rfl hns
    next => exact Iff.rfl
  rw [hiff]
  have hdata₁ := (answers_data zones ⟨name₁, qtype⟩).2 rrs₁ h₁
  have hdata₂ := (answers_data zones ⟨name₂, qtype⟩).2 rrs₂ h₂
  constructor
  · rintro rfl
    by_cases hname : name₁ = name₂
    · exact Or.inl hname
    · -- one spelling has data, then the other has none, and an answer is missing
      have hnil : rrs₁ = [] := by
        by_contra hne
        have hnot := not_hasData_of_fold hfold hcase hname hsoa hns (hdata₁.mp hne)
        exact hnot (hdata₂.mp (by simpa using hne))
      refine Or.inr ⟨fun h => hdata₁.mpr h hnil, fun h => hdata₂.mpr h ?_⟩
      rw [hnil]
      rfl
  · rintro (rfl | ⟨hnone₁, hnone₂⟩)
    · obtain rfl := Except.ok.inj (h₁.symm.trans h₂)
      exact map_ownedBy_answers (q := ⟨name₁, qtype⟩) hsoa hns h₁
    · rw [← hdata₁, not_not] at hnone₁
      rw [← hdata₂, not_not] at hnone₂
      rw [hnone₁, hnone₂]
      rfl

end Alike

/-- **Letter case.**  When no two records have names that differ in the case of letters only:
two spellings of a name get the same response code and the same answers up to the owner name
exactly when both get a reply and what is stored for them, matched letter for letter, is the
same. -/
theorem letterCase_iff {zones : Zones} (hfold : NamesFold zones) {name₁ name₂ : String}
    (hcase : foldCase name₁ = foldCase name₂) (qtype : RRType) :
    AnsweredAlike zones name₁ name₂ qtype ↔
      Replies zones ⟨name₁, qtype⟩ ∧ Replies zones ⟨name₂, qtype⟩ ∧
        StoredAlike zones name₁ name₂ qtype := by
  rw [answeredAlike_iff, ← (answers_data zones ⟨name₁, qtype⟩).1,
    ← (answers_data zones ⟨name₂, qtype⟩).1]
  -- with both answers at hand, compare what they are made from
  have hstored : ∀ rrs₁ rrs₂, answers zones ⟨name₁, qtype⟩ = .ok rrs₁ →
      answers zones ⟨name₂, qtype⟩ = .ok rrs₂ →
      (rrs₁.map (ownedBy name₂) = rrs₂ ↔ StoredAlike zones name₁ name₂ qtype) := by
    intro rrs₁ rrs₂ h₁ h₂
    by_cases hsoa : qtype = .soa
    · obtain rfl := hsoa
      exact alike_soa_iff h₁ h₂
    by_cases hns : qtype = .ns
    · obtain rfl := hns
      exact alike_ns_iff h₁ h₂
    exact alike_record_iff hfold hcase hsoa hns h₁ h₂
  constructor
  · rintro ⟨rrs₁, rrs₂, h₁, h₂, heq⟩
    exact ⟨⟨rrs₁, h₁⟩, ⟨rrs₂, h₂⟩, (hstored rrs₁ rrs₂ h₁ h₂).mp heq⟩
  · rintro ⟨⟨rrs₁, h₁⟩, ⟨rrs₂, h₂⟩, halike⟩
    exact ⟨rrs₁, rrs₂, h₁, h₂, (hstored rrs₁ rrs₂ h₁ h₂).mpr halike⟩

theorem namesFold_balancer (listener : String) : NamesFold (balancerZones listener) := by
  have honly : ∀ key zone rec, (balancerZones listener).lookup key = some (some zone) →
      some rec ∈ zone.records.elems → rec = balancerRecord listener := by
    intro key zone rec hzone hmem
    by_cases hkey : key = "test.home.arpa."
    · subst hkey
      rw [balancerZones, Finmap.lookup_singleton_eq] at hzone
      obtain rfl := Option.some.inj (Option.some.inj hzone)
      exact Option.some.inj (List.mem_singleton.mp hmem)
    · have hnone : (balancerZones listener).lookup key = none := by
        rw [Finmap.lookup_eq_none, balancerZones, Finmap.mem_singleton]
        exact hkey
      exact absurd (hnone.symm.trans hzone) (by simp)
  intro key₁ key₂ zone₁ zone₂ rec₁ rec₂ hzone₁ hzone₂ hmem₁ hmem₂ _
  rw [honly key₁ zone₁ rec₁ hzone₁ hmem₁, honly key₂ zone₂ rec₂ hzone₂ hmem₂]

/-- The SOA of the zone, asked for under two spellings of a name below it. -/
theorem letterCase_soa :
    AnsweredAlike (balancerZones "127.0.0.1:8000") "www.test.home.arpa." "WWW.test.home.arpa."
      .soa := by
  have hreplies : ∀ name, Replies (balancerZones "127.0.0.1:8000") ⟨name, .soa⟩ := by
    rintro name key zone ⟨suffix, -, -, -, hzone, -⟩
    have hmem : key ∈ balancerZones "127.0.0.1:8000" := Finmap.mem_of_lookup_eq_some hzone
    obtain rfl := (Finmap.mem_singleton key "test.home.arpa." _).mp hmem
    rw [balancerZones, Finmap.lookup_singleton_eq] at hzone
    obtain rfl := Option.some.inj (Option.some.inj hzone)
    exact Option.some_ne_none _
  refine (letterCase_iff (namesFold_balancer _) (by decide +kernel) .soa).mpr
    ⟨hreplies _, hreplies _, ?_⟩
  show (findZone _ "www.test.home.arpa.").bind Zone.soa
    = (findZone _ "WWW.test.home.arpa.").bind Zone.soa
  decide +kernel

/-- **A lookup that does not ignore letter case.**  The name of the load balancer with a capital
letter gets a name error. -/
theorem letterCase_matters :
    NamesFold (balancerZones "127.0.0.1:8000") ∧
    foldCase "balancer.test.home.arpa." = foldCase "Balancer.test.home.arpa." ∧
    (∃ r, serveDNS (balancerZones "127.0.0.1:8000") [⟨"balancer.test.home.arpa.", .a⟩] = .ok r ∧
      r.rcode = .success ∧ addresses r.answer = [loopback4]) ∧
    serveDNS (balancerZones "127.0.0.1:8000") [⟨"Balancer.test.home.arpa.", .a⟩]
      = .ok ⟨.nameError, false, false, []⟩ ∧
    ¬ AnsweredAlike (balancerZones "127.0.0.1:8000") "balancer.test.home.arpa."
      "Balancer.test.home.arpa." .a := by
  have hlower : ∃ r, serveDNS (balancerZones "127.0.0.1:8000")
      [⟨"balancer.test.home.arpa.", .a⟩] = .ok r ∧ r.rcode = .success ∧
        addresses r.answer = [loopback4] := by
    have heval : okWith (fun r => decide (r.rcode = .success ∧ addresses r.answer = [loopback4]))
        (serveDNS (balancerZones "127.0.0.1:8000") [⟨"balancer.test.home.arpa.", .a⟩])
          = true := by decide +kernel
    obtain ⟨r, hr, hreply⟩ := okWith_eq_true heval
    exact ⟨r, hr, of_decide_eq_true hreply⟩
  have hupper : serveDNS (balancerZones "127.0.0.1:8000") [⟨"Balancer.test.home.arpa.", .a⟩]
      = .ok ⟨.nameError, false, false, []⟩ := by decide +kernel
  refine ⟨namesFold_balancer _, by decide +kernel, hlower, hupper, ?_⟩
  rintro ⟨r₁, r₂, h₁, h₂, hrcode, -⟩
  obtain ⟨r, hr, hsuccess, -⟩ := hlower
  obtain rfl := Except.ok.inj (hr.symm.trans h₁)
  obtain rfl := Except.ok.inj (hupper.symm.trans h₂)
  rw [hsuccess] at hrcode
  exact absurd hrcode (by simp)

end Border
