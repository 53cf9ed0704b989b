/-
# The addresses of A records

An A record holds the addresses that its literal lists as texts.  The conversion of a literal
(`typeAssertIP`) accepts every text: one that is no address leaves the nil address, and one
that is an IPv6 address is taken as it is.

`aAnswers_iff` : the answers to an A query hold IPv4 addresses, and then those that were
written, exactly when every item of the literal is the text of an IPv4 address.
-/
import Border.ConfigRounds
import Border.DnsNames

namespace Border

open Dns GoJson GoMap NetAddr

/-! ## Literals of A records -/

/-- The inversion of one field of `parseLiteral`. -/
theorem literalField_ok {σ α : Type} {literal : List (String × Json)} {tag : String}
    {optional : Bool} {assert : Json → Except Failure α} {set : σ → α → σ} {s s' : σ}
    (h : literalField literal tag optional assert set s = .ok s') :
    (literal.lookup tag = none ∧ optional = true ∧ s' = s) ∨
      ∃ j v, literal.lookup tag = some j ∧ assert j = .ok v ∧ s' = set s v := by
  unfold literalField at h
  cases hlookup : literal.lookup tag with
  | none =>
    rw [hlookup] at h
    cases optional with
    | false => exact absurd h (by simp)
    | true => exact Or.inl ⟨rfl, rfl, (Except.ok.inj h).symm⟩
  | some j =>
    rw [hlookup] at h
    dsimp only at h
    cases hassert : assert j with
    | error e =>
      rw [hassert] at h
      exact absurd h (by simp)
    | ok v =>
      rw [hassert] at h
      exact Or.inr ⟨j, v, rfl, hassert, (Except.ok.inj h).symm⟩

/-- The items of the `addresses` field of a literal. -/
def writtenAddresses (literal : List (String × Json)) : List Json :=
  match literal.lookup "addresses" with
  | some (.arr items) => items
  | _ => []

/-- A slice that was asserted from a literal has one element for each item. -/
theorem forall₂_of_mapM {items : List Json} {ips : List IP}
    (h : (items.map Literal.json).mapM typeAssertIP = .ok ips) :
    List.Forall₂ (fun item ip => typeAssertIP (.json item) = .ok ip) items ips := by
  rw [mapM_eq_ok_iff_forall₂, List.forall₂_map_left_iff] at h
  exact h

/-- **What `parseLiteral` leaves in an A record**: the item at each position, converted. -/
theorem parseA_addresses {parseDuration : String → Except String ℤ}
    {literal : List (String × Json)} {a a' : ARecord}
    (h : parseA parseDuration literal a = .ok a') :
    List.Forall₂ (fun item ip => typeAssertIP (.json item) = .ok ip) (writtenAddresses literal)
      a'.addresses := by
  obtain ⟨a₁, haddresses, h⟩ := bind_ok h
  obtain ⟨a₂, httl, hcheck⟩ := bind_ok h
  -- the two fields after the addresses leave them alone
  have hsame : a'.addresses = a₁.addresses := by
    have h₁ : a₂.addresses = a₁.addresses := by
      rcases literalField_ok httl with ⟨-, -, rfl⟩ | ⟨_, _, -, -, rfl⟩
      · rfl
      · rfl
    have h₂ : a'.addresses = a₂.addresses := by
      rcases literalField_ok hcheck with ⟨-, -, rfl⟩ | ⟨_, _, -, -, rfl⟩
      · rfl
      · rfl
    rw [h₂, h₁]
  rw [hsame]
  rcases literalField_ok haddresses with ⟨-, hoptional, -⟩ | ⟨j, ips, hlookup, hassert, rfl⟩
  · exact absurd hoptional (by simp)
  · unfold writtenAddresses
    rw [hlookup]
    show List.Forall₂ _ _ ips
    cases j with
    | arr items => exact forall₂_of_mapM hassert
    | str s =>
      -- a text is read byte by byte, and no byte is an address
      cases hbytes : textBytes s with
      | nil =>
        rw [typeAssertSlice, hbytes] at hassert
        rw [← Except.ok.inj hassert]
        exact .nil
      | cons b bs =>
        rw [typeAssertSlice, hbytes, List.map_cons, List.mapM_cons] at hassert
        obtain ⟨ip, hip, -⟩ := bind_ok hassert
        exact absurd hip (by simp [typeAssertIP])
    | null => exact absurd hassert (by simp [typeAssertSlice])
    | bool b => exact absurd hassert (by simp [typeAssertSlice])
    | num m e => exact absurd hassert (by simp [typeAssertSlice])
    | obj fields => exact absurd hassert (by simp [typeAssertSlice])

/-! ## Items that are addresses -/

/-- The item is the text of the IPv4 address. -/
def IPv4Text (item : Json) (ip : IP) : Prop :=
  ∃ text, item = .str text ∧ parseIP text = some ip ∧ isIPv4 ip = true

instance (item : Json) : Decidable (∃ ip, IPv4Text item ip) :=
  match item with
  | .str text =>
    match h : parseIP text with
    | some ip =>
      if hip : isIPv4 ip = true then isTrue ⟨ip, text, rfl, h, hip⟩
      else isFalse fun ⟨ip', text', htext, hparse, hip'⟩ => by
        obtain rfl := Json.str.inj htext
        obtain rfl := Option.some.inj (h.symm.trans hparse)
        exact hip hip'
    | none => isFalse fun ⟨ip', text', htext, hparse, _⟩ => by
        obtain rfl := Json.str.inj htext
        exact absurd (h.symm.trans hparse) (by simp)
  | .null => isFalse fun ⟨_, _, h, _⟩ => absurd h (by simp)
  | .bool _ => isFalse fun ⟨_, _, h, _⟩ => absurd h (by simp)
  | .num _ _ => isFalse fun ⟨_, _, h, _⟩ => absurd h (by simp)
  | .arr _ => isFalse fun ⟨_, _, h, _⟩ => absurd h (by simp)
  | .obj _ => isFalse fun ⟨_, _, h, _⟩ => absurd h (by simp)

/-- A converted item is an IPv4 address only when it is the text of one. -/
theorem ipv4Text_of_typeAssertIP {item : Json} {ip : IP}
    (h : typeAssertIP (.json item) = .ok ip) : isIPv4 ip = true ↔ IPv4Text item ip := by
  constructor
  · intro hip
    match item with
    | .str text =>
      have heq : (parseIP text).getD [] = ip := Except.ok.inj h
      cases hparse : parseIP text with
      | none =>
        rw [hparse] at heq
        rw [← heq] at hip
        exact absurd hip (by decide)
      | some ip' =>
        rw [hparse] at heq
        exact ⟨text, rfl, hparse.trans (congrArg some heq), hip⟩
    | .arr [] =>
      rw [← Except.ok.inj h] at hip
      exact absurd hip (by decide)
    | .arr (j :: js) => exact absurd h (by simp [typeAssertIP])
    | .null => exact absurd h (by simp [typeAssertIP])
    | .bool b => exact absurd h (by simp [typeAssertIP])
    | .num m e => exact absurd h (by simp [typeAssertIP])
    | .obj fields => exact absurd h (by simp [typeAssertIP])
  · rintro ⟨text, -, -, hip⟩
    exact hip

/-- An item that is the text of an IPv4 address is converted to it. -/
theorem isIPv4_of_text {item : Json} {ip ip' : IP} (h : typeAssertIP (.json item) = .ok ip)
    (htext : IPv4Text item ip') : isIPv4 ip = true := by
  obtain ⟨text, rfl, hparse, hip⟩ := htext
  have heq : (parseIP text).getD [] = ip := Except.ok.inj h
  rw [hparse] at heq
  rw [← heq]
  exact hip

/-! ## The answers -/

/-- The record a name is answered from, in zones that were loaded. -/
theorem exists_zone_of_servedRecord {parseDuration : String → Except String ℤ} {zones : Zones}
    (hloaded : ZonesLoaded parseDuration zones) {name : String} {rec : Record}
    (h : servedRecord zones name = .ok (some rec)) :
    ∃ soa, convertRecord parseDuration soa rec = .ok rec := by
  unfold servedRecord at h
  cases hzone : findZone zones name with
  | none =>
    rw [hzone] at h
    exact absurd h (by simp)
  | some zone =>
    rw [hzone] at h
    obtain ⟨key, suffix, -, -, -, hlookup, -⟩ := findZone_eq_some_iff.mp hzone
    obtain ⟨-, z, hz, hrecords⟩ := hloaded key _ hlookup
    obtain rfl := Option.some.inj hz
    obtain ⟨-, hnamed⟩ := (findRecord_eq_ok_iff _ _ _).mp h
    obtain ⟨rec', hrec', hconverted⟩ := hrecords.records _ (mem_of_recordNamed hnamed).1
    obtain rfl := Option.some.inj hrec'
    exact ⟨zone.soa, hconverted⟩

/-- The value of an A record that was converted. -/
theorem value_of_convertRecord {parseDuration : String → Except String ℤ} {soa : Option SOA}
    {rec : Record} (h : convertRecord parseDuration soa rec = .ok rec) (htype : rec.type = .a) :
    ∃ a, rec.value = some (.a a) ∧
      List.Forall₂ (fun item ip => typeAssertIP (.json item) = .ok ip)
        (writtenAddresses (rec.literalValue.getD [])) a.addresses := by
  unfold convertRecord at h
  rw [htype] at h
  cases soa with
  | none => exact absurd h (by simp)
  | some soa =>
    obtain ⟨a, ha, heq⟩ := map_ok h
    refine ⟨a, ?_, parseA_addresses (recordError_eq_ok.mp ha)⟩
    rw [← heq]

/-- Each answer holds an IPv4 address. -/
def HoldsIPv4 (answer : List RR) : Prop :=
  ∀ rr ∈ answer, ∃ hdr ip, rr = .a hdr ip ∧ isIPv4 ip = true

/-- Each answer holds the IPv4 address that is written at its position. -/
def HoldsWritten (answer : List RR) (items : List Json) : Prop :=
  List.Forall₂ (fun rr item => ∃ hdr ip, rr = .a hdr ip ∧ IPv4Text item ip) answer items

/-- **A answers.**  After a load, the A query for a name with an A record is answered.  The
answers hold IPv4 addresses exactly when every item of the literal is the text of one; and
they hold those that are written, each at its position, exactly then. -/
theorem aAnswers_iff {β : Type} {lib : Libraries β} {env : Env} {c loaded : Config}
    {filename : String} {loader : β → Except String Config} {file : Option (File β)}
    (hload : fromDisk lib env c filename loader file = .ok loaded) {name : String} {rec : Record}
    (hrec : servedRecord loaded.zones name = .ok (some rec)) (htype : rec.type = .a)
    (more : List Question) :
    ∃ r, serveDNS loaded.zones (⟨name, .a⟩ :: more) = .ok r ∧
      (HoldsIPv4 r.answer ↔
        ∀ item ∈ writtenAddresses (rec.literalValue.getD []), ∃ ip, IPv4Text item ip) ∧
      (HoldsWritten r.answer (writtenAddresses (rec.literalValue.getD [])) ↔
        ∀ item ∈ writtenAddresses (rec.literalValue.getD []), ∃ ip, IPv4Text item ip) := by
  obtain ⟨soa, hconverted⟩ := exists_zone_of_servedRecord (zonesLoaded_of_fromDisk hload) hrec
  obtain ⟨a, hvalue, hitems⟩ := value_of_convertRecord hconverted htype
  have hanswers : answers loaded.zones ⟨name, .a⟩ = .ok (a.convert name) := by
    rw [answers_eq (by simp) (by simp), hrec]
    show answerRecord name .a rec = _
    unfold answerRecord
    rw [htype, hvalue]
    rfl
  obtain ⟨r, hr, hanswer⟩ := serveDNS_answer_iff.mpr hanswers
  refine ⟨r, hr, ?_⟩
  rw [hanswer]
  generalize writtenAddresses (rec.literalValue.getD []) = items at hitems ⊢
  -- item by item, the address is an IPv4 one when the item is the text of one
  unfold ARecord.convert HoldsIPv4 HoldsWritten
  generalize RRHeader.mk name .a classINET a.ttl = hdr
  generalize a.addresses = ips at hitems
  induction hitems with
  | nil => simp
  | cons hitem _ ih =>
    rename_i item ip items ips _
    obtain ⟨ihHolds, ihWritten⟩ := ih
    have hhead : isIPv4 ip = true ↔ ∃ ip', IPv4Text item ip' := by
      constructor
      · exact fun hip => ⟨ip, (ipv4Text_of_typeAssertIP hitem).mp hip⟩
      · rintro ⟨ip', htext⟩
        exact isIPv4_of_text hitem htext
    rw [List.map_cons, List.forall_mem_cons, List.forall_mem_cons, List.forall₂_cons, ihHolds,
      ihWritten]
    constructor
    · refine and_congr ⟨?_, fun h => ⟨hdr, ip, rfl, hhead.mpr h⟩⟩ Iff.rfl
      rintro ⟨_, _, heq, hip⟩
      obtain ⟨-, rfl⟩ := RR.a.inj heq
      exact hhead.mp hip
    · refine and_congr ⟨?_, fun h => ?_⟩ Iff.rfl
      · rintro ⟨_, ip', -, htext⟩
        exact ⟨ip', htext⟩
      · exact ⟨hdr, ip, rfl, (ipv4Text_of_typeAssertIP hitem).mp (hhead.mpr h)⟩

/-! ## A text that is no address -/

/-- A document with an A record that lists the given texts. -/
def addressDocument (texts : List String) : ConfigData :=
  { onePeerNode.config.toConfigData with
    zones := Finmap.singleton "test" (some {
      soa := some ⟨"test", "admin.test", 60, 1, 60, 1, 120⟩
      ns := some ⟨["ns.test"], 0⟩
      records := some [some ⟨.a, "web.test", some [("addresses", .arr (texts.map .str))],
        none⟩] }) }

/-- What is loaded from it. -/
def loadAddresses (texts : List String) : Except Failure Config :=
  fromDisk plainLibraries calmEnv (Config.new []) "border.yaml" (loadYAML plainLibraries)
    (some (.doc (addressDocument texts)))

/-- The items that the record of a name lists after a load. -/
def servedItems (zones : Zones) (name : String) : Option (List Json) :=
  match servedRecord zones name with
  | .ok (some rec) =>
    if rec.type = .a then some (writtenAddresses (rec.literalValue.getD [])) else none
  | _ => none

theorem servedItems_eq_some {zones : Zones} {name : String} {items : List Json}
    (h : servedItems zones name = some items) :
    ∃ rec, servedRecord zones name = .ok (some rec) ∧ rec.type = .a ∧
      writtenAddresses (rec.literalValue.getD []) = items := by
  unfold servedItems at h
  split at h
  · rename_i rec hrec
    split_ifs at h with htype
    exact ⟨rec, hrec, htype, Option.some.inj h⟩
  · exact absurd h (by simp)

theorem aAnswers_web :
    ∃ c r, loadAddresses ["10.0.0.1", "10.0.0.2"] = .ok c ∧
      serveDNS c.zones [⟨"web.test.", .a⟩] = .ok r ∧ HoldsIPv4 r.answer := by
  have heval : okWith (fun c => (servedItems c.zones "web.test.").any fun items =>
      decide (∀ item ∈ items, ∃ ip, IPv4Text item ip))
      (loadAddresses ["10.0.0.1", "10.0.0.2"]) = true := by decide +kernel
  obtain ⟨c, hload, hany⟩ := okWith_eq_true heval
  obtain ⟨items, hserved, htexts⟩ := (Option.any_eq_true _ _).mp hany
  obtain ⟨rec, hrec, htype, rfl⟩ := servedItems_eq_some hserved
  obtain ⟨r, hr, hholds, -⟩ := aAnswers_iff hload hrec htype []
  exact ⟨c, r, hload, hr, hholds.mpr (of_decide_eq_true htexts)⟩

/-- **Texts that are no IPv4 addresses are served as A answers.**  A document with a mistyped
address and an IPv6 one is loaded, and the answers hold the nil address and the IPv6 one. -/
theorem aAnswers_mistyped :
    ∃ c r, loadAddresses ["10.0.0.256", "::1"] = .ok c ∧
      serveDNS c.zones [⟨"web.test.", .a⟩] = .ok r ∧ addresses r.answer = [[], loopback6] ∧
      ¬ HoldsIPv4 r.answer := by
  have heval : okWith (fun c => decide (serveDNS c.zones [⟨"web.test.", .a⟩]
      = .ok ⟨.success, true, true, [.a ⟨"web.test.", .a, classINET, 60⟩ [],
        .a ⟨"web.test.", .a, classINET, 60⟩ loopback6]⟩))
      (loadAddresses ["10.0.0.256", "::1"]) = true := by decide +kernel
  obtain ⟨c, hload, hreply⟩ := okWith_eq_true heval
  refine ⟨c, _, hload, of_decide_eq_true hreply, rfl, fun h => ?_⟩
  obtain ⟨hdr, ip, heq, hip⟩ := h _ List.mem_cons_self
  obtain ⟨-, rfl⟩ := RR.a.inj heq
  exact absurd hip (by decide)

end Border
