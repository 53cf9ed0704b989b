/-
# What a check can find out

Model of `runCheck` in `pkg/healthcheck/healthcheck.go`: a ping goes to the address that the target
of the check is the text of, and an HTTP check asks for the URL that the target is.  The checks that
`buildHealthChecks` makes for a record have the text of an address as their target, and that is no
URL that `http.DefaultClient` could ask for.

* `runCheck_address` : a check of an address that is not a ping fails, whatever the network does;
* `addresses_lost` : an A record whose health checks are not pings has lost all its addresses after
  as many rounds as the smallest of their thresholds, and stays without them.
-/
import Border.AddressChecks
import Border.DnsServer
import Border.IPText

namespace Border

open Dns GoJson GoMap NetAddr Transition

/-! ## The scheme of a URL -/

/-- The loop of `getScheme` in `net/url`, after it has read some characters. -/
def getSchemeFrom (read : List Char) : List Char → Except String String
  | [] => .ok ""
  | c :: rest =>
    if c.isAlpha then getSchemeFrom (read ++ [c]) rest
    else if c.isDigit ∨ c = '+' ∨ c = '-' ∨ c = '.' then
      if read = [] then .ok "" else getSchemeFrom (read ++ [c]) rest
    else if c = ':' then
      if read = [] then .error "missing protocol scheme"
      else .ok (String.ofList (read.map Char.toLower))
    else .ok ""

/-- The scheme of a URL, in lower case; empty when it has none. -/
def getScheme (rawURL : String) : Except String String := getSchemeFrom [] rawURL.toList

/-- A scheme is made of characters of the URL. -/
theorem mem_of_getSchemeFrom {text read : List Char} {scheme : String} {c : Char}
    (h : getSchemeFrom read text = .ok scheme) (hc : c ∈ scheme.toList) :
    ∃ d ∈ read ++ text, d.toLower = c := by
  induction text generalizing read with
  | nil =>
    cases h
    exact absurd hc List.not_mem_nil
  | cons d rest ih =>
    have hshift : ∀ {d'}, d' ∈ (read ++ [d]) ++ rest → d' ∈ read ++ d :: rest := by
      intro d' hd'
      rwa [List.append_assoc] at hd'
    have hempty : scheme ≠ "" := by
      rintro rfl
      exact absurd hc List.not_mem_nil
    unfold getSchemeFrom at h
    split_ifs at h
    · obtain ⟨d', hd', heq⟩ := ih h
      exact ⟨d', hshift hd', heq⟩
    · exact absurd (Except.ok.inj h).symm hempty
    · obtain ⟨d', hd', heq⟩ := ih h
      exact ⟨d', hshift hd', heq⟩
    · obtain rfl := Except.ok.inj h
      rw [String.toList_ofList] at hc
      obtain ⟨d', hd', heq⟩ := List.mem_map.mp hc
      exact ⟨d', List.mem_append_left _ hd', heq⟩
    · exact absurd (Except.ok.inj h).symm hempty

theorem mem_of_getScheme {rawURL scheme : String} {c : Char} (h : getScheme rawURL = .ok scheme)
    (hc : c ∈ scheme.toList) : ∃ d ∈ rawURL.toList, d.toLower = c :=
  mem_of_getSchemeFrom h hc

/-! ## Running a check -/

/-- What a check finds around it: whether an address answers a ping in time, the error of making a
request for a URL that has a scheme, and the status of the answer to it. -/
structure Reachability where
  ping : IP → ℤ → Bool
  requestError : String → Option String
  status : String → ℤ → Option ℕ

/-- `HealthCheckAction.runCheck`.  The transport of `http.DefaultClient` refuses every URL that is
not one of HTTP. -/
def HealthCheck.runCheck (net : Reachability) (hc : HealthCheck) : Except String Unit :=
  match hc.type with
  | .ping =>
    match parseIP hc.target with
    | none =>
      .error ("Ping types must be an IP, received " ++ quoted hc.target ++ " for check "
        ++ quoted hc.name ++ ", which is not an IP")
    | some ip =>
      if net.ping ip hc.timeout then .ok ()
      else
        .error ("Failed to ping address " ++ quoted hc.target ++ " (check: " ++ quoted hc.name
          ++ ")")
  | .http =>
    match getScheme hc.target with
    | .error e =>
      .error ("Could not construct initial request: parse " ++ quoted hc.target ++ ": " ++ e)
    | .ok scheme =>
      match net.requestError hc.target with
      | some e => .error ("Could not construct initial request: " ++ e)
      | none =>
        match
          if scheme = "http" ∨ scheme = "https" then net.status hc.target hc.timeout else none with
        | none =>
          .error ("Failed to contact " ++ quoted hc.target ++ " over HTTP (check: "
            ++ quoted hc.name ++ ")")
        | some status =>
          if status = 200 then .ok ()
          else
            .error ("Status was not OK (was: " ++ toString status ++ ") on HTTP healthcheck "
              ++ quoted hc.name ++ " for target " ++ quoted hc.target)
  | .other type =>
    .error ("Invalid health check type " ++ quoted type ++ " (check: " ++ quoted hc.name
      ++ "): please adjust your configuration")

/-- What `runChecks` makes of the result. -/
def HealthCheck.outcome (net : Reachability) (hc : HealthCheck) : CheckOutcome :=
  match hc.runCheck net with
  | .ok _ => .success
  | .error _ => .failure

/-! ## Checks of an address -/

/-- No text of an address has a scheme that begins with the letter of HTTP. -/
theorem getScheme_ipString {ip : IP} {scheme : String} (h : getScheme (ipString ip) = .ok scheme) :
    'h' ∉ scheme.toList := by
  intro hmem
  obtain ⟨d, hd, hlower⟩ := mem_of_getScheme h hmem
  have hdigit : ∀ n, (Nat.digitChar n).toLower ≠ 'h' :=
    forall_digitChar (P := fun c => c.toLower ≠ 'h') (by decide) (by decide)
  have hother : ∀ c ∈ (ipString ip).toList, c.toLower ≠ 'h' :=
    forall_mem_ipString (P := fun c => c.toLower ≠ 'h') hdigit (by decide) (by decide) (by simp)
      (by decide) ip
  exact hother d hd hlower

/-- **A check of an address that is not a ping fails.** -/
theorem runCheck_address {net : Reachability} {hc : HealthCheck} {ip : IP} (htype : hc.type ≠ .ping)
    (htarget : hc.target = ipString ip) : hc.outcome net = .failure := by
  have herror : ∃ e, hc.runCheck net = .error e := by
    unfold HealthCheck.runCheck
    cases hkind : hc.type with
    | ping => exact absurd hkind htype
    | other type => exact ⟨_, rfl⟩
    | http =>
      dsimp only
      cases hscheme : getScheme hc.target with
      | error e => exact ⟨_, rfl⟩
      | ok scheme =>
        dsimp only
        cases net.requestError hc.target with
        | some e => exact ⟨_, rfl⟩
        | none =>
          rw [htarget] at hscheme
          have hnot := getScheme_ipString hscheme
          rw [if_neg]
          · exact ⟨_, rfl⟩
          · rintro (rfl | rfl)
            · exact hnot (by decide)
            · exact hnot (by decide)
  obtain ⟨e, he⟩ := herror
  rw [HealthCheck.outcome, he]

/-! ## The checks that are made -/

/-- Checks are only ever added. -/
theorem Extends.subset {zones : Zones} {b b' : Builder} (h : Extends zones b b') :
    b.made ⊆ b'.made := by
  obtain ⟨new, more, hmade, -, -⟩ := h
  rw [hmade]
  exact List.subset_append_left _ _

section Made

variable {peers : List (Option Peer)} {zones : Zones} {key : String} {idx : ℕ} {rec : Record}
  {a : ARecord} {b b' : Builder}

theorem mem_zoneActions {zone : Zone} (hzone : zones.lookup key = some (some zone))
    (htype : rec.type = .a) (hvalue : rec.value = some (.a a)) {i : ℕ} {rs : List (Option Record)}
    (hrs : zone.records.elems.drop i = rs) (hi : i ≤ idx)
    (hrec : zone.records.elems[idx]? = some (some rec))
    (h : zoneActions peers key i rs b = .ok b') :
    addressActions key idx rec.name a ⊆ b'.made := by
  induction rs generalizing i b with
  | nil =>
    -- the loop does not end before it has come to the record
    have hlt : idx < zone.records.elems.length := (List.getElem?_eq_some_iff.mp hrec).1
    have hle : zone.records.elems.length ≤ i := List.drop_eq_nil_iff.mp hrs
    omega
  | cons r rs ih =>
    have hget : zone.records.elems[i]? = some r := by
      rw [← List.head?_drop, hrs]
      rfl
    have hdrop : zone.records.elems.drop (i + 1) = rs := by
      rw [← List.tail_drop, hrs]
      rfl
    cases r with
    | none => cases h
    | some r =>
      obtain ⟨b₁, h₁, hrest⟩ := bind_ok h
      rcases Nat.eq_or_lt_of_le hi with rfl | hlt
      · obtain rfl : r = rec := Option.some.inj (Option.some.inj (hget.symm.trans hrec))
        have hmade : b₁ = { b with made := b.made ++ addressActions key i r.name a } := by
          rw [recordActions, htype, hvalue] at h₁
          exact (Except.ok.inj h₁).symm
        refine fun x hx => (extends_zoneActions hzone hdrop hrest).subset ?_
        rw [hmade]
        exact List.mem_append_right _ hx
      · exact ih hdrop hlt hrest

/-- **Every address of an A record has its checks.** -/
theorem mem_buildHealthChecks {order : RangeOrder String (Option Zone)} {c : ConfigData}
    (hbuild : buildHealthChecks order c = .ok b) (hrec : recordAt c.zones key idx = some rec)
    (htype : rec.type = .a) (hvalue : rec.value = some (.a a)) :
    addressActions key idx rec.name a ⊆ b.made := by
  obtain ⟨checks, -, hzones⟩ := bind_ok hbuild
  unfold recordAt at hrec
  split at hrec
  case h_2 => cases hrec
  case h_1 zone hzone =>
    have hget : zone.records.elems[idx]? = some (some rec) := Option.join_eq_some_iff.mp hrec
    have hkey : key ∈ order.keys c.zones := by
      rw [order.mem_keys, ← Finmap.lookup_isSome, hzone]
      rfl
    generalize order.keys c.zones = keys at hkey hzones
    generalize (⟨checks, []⟩ : Builder) = b₀ at hzones
    induction keys generalizing b₀ with
    | nil => exact absurd hkey List.not_mem_nil
    | cons k keys ih =>
      rw [zonesActions] at hzones
      by_cases heq : k = key
      · obtain rfl := heq
        rw [hzone] at hzones
        obtain ⟨b₁, h₁, hrest⟩ := bind_ok hzones
        exact fun x hx => (extends_zonesActions hrest).subset
          (mem_zoneActions hzone htype hvalue rfl (Nat.zero_le _) hget h₁ hx)
      · have hkey' : key ∈ keys := by
          rcases List.mem_cons.mp hkey with h | h
          · exact absurd h.symm heq
          · exact h
        split at hzones
        · exact ih hkey' b₀ hzones
        · cases hzones
        · obtain ⟨b₁, -, hrest⟩ := bind_ok hzones
          exact ih hkey' b₁ hrest

/-- What holds of the checks of peers and is kept by every record holds of all checks. -/
theorem made_forall {Q : HealthCheckAction → Prop} {order : RangeOrder String (Option Zone)}
    {c : ConfigData} (hbuild : buildHealthChecks order c = .ok b)
    (hpeer : ∀ p x, peerAction p = .ok x → Q x)
    (hrecord : ∀ key idx rec b b', recordAt c.zones key idx = some rec →
      recordActions c.peers.elems key idx rec b = .ok b' → (∀ x ∈ b.made, Q x) →
      ∀ x ∈ b'.made, Q x) : ∀ x ∈ b.made, Q x := by
  obtain ⟨checks, hpeers, hzones⟩ := bind_ok hbuild
  have hchecks : ∀ x ∈ checks, Q x := by
    intro x hx
    have hmem : Except.ok x ∈ c.peers.elems.map peerAction := by
      rw [mapM_eq_ok_iff.mp hpeers]
      exact List.mem_map_of_mem hx
    obtain ⟨p, -, hp⟩ := List.mem_map.mp hmem
    exact hpeer p x hp
  have hzone : ∀ key zone, c.zones.lookup key = some (some zone) → ∀ rs i b₀ b₁,
      zone.records.elems.drop i = rs → zoneActions c.peers.elems key i rs b₀ = .ok b₁ →
      (∀ x ∈ b₀.made, Q x) → ∀ x ∈ b₁.made, Q x := by
    intro key zone hlookup rs
    induction rs with
    | nil =>
      intro i b₀ b₁ _ h hb₀
      obtain rfl := Except.ok.inj h
      exact hb₀
    | cons r rs ih =>
      intro i b₀ b₁ hdrop h hb₀
      cases r with
      | none => cases h
      | some rec =>
        obtain ⟨b₂, h₂, hrest⟩ := bind_ok h
        have hrec : recordAt c.zones key i = some rec := by
          rw [recordAt, hlookup]
          show (zone.records.elems[i]?).join = some rec
          rw [← List.head?_drop, hdrop]
          rfl
        refine ih (i + 1) b₂ b₁ ?_ hrest (hrecord key i rec b₀ b₂ hrec h₂ hb₀)
        rw [← List.tail_drop, hdrop]
        rfl
  generalize order.keys c.zones = keys at hzones
  generalize hb₀ : (⟨checks, []⟩ : Builder) = b₀ at hzones
  have hstart : ∀ x ∈ b₀.made, Q x := by
    rw [← hb₀]
    exact hchecks
  clear hb₀
  induction keys generalizing b₀ with
  | nil =>
    obtain rfl := Except.ok.inj hzones
    exact hstart
  | cons key keys ih =>
    rw [zonesActions] at hzones
    split at hzones
    · exact ih b₀ hzones hstart
    · cases hzones
    next zone hlookup =>
      obtain ⟨b₁, h₁, hrest⟩ := bind_ok hzones
      exact ih b₁ hrest (hzone key zone hlookup _ 0 b₀ b₁ rfl h₁ hstart)

/-- The checks of an LB record hold variables of loops. -/
theorem entry_of_lbRecordActions {key : String} {idx : ℕ} {recName : String} {lb : LBRecord}
    {checks : List HealthCheck} (h : lbRecordActions peers key idx recName lb checks b = .ok b')
    {x : HealthCheckAction} (hx : x ∈ b'.made) :
    x ∈ b.made ∨ ∃ side var subject, x.closure = .entry side key idx var subject := by
  induction checks generalizing b with
  | nil =>
    obtain rfl := Except.ok.inj h
    exact Or.inl hx
  | cons check checks ih =>
    have hloop : ∀ {side entries b₀ b₁},
        Capture.forRange "" (entryBody peers key idx recName check side) entries b₀ = .ok b₁ →
        x ∈ b₁.made →
        x ∈ b₀.made ∨ ∃ side var subject, x.closure = .entry side key idx var subject := by
      intro side entries b₀ b₁ hrange hmem
      obtain ⟨-, new, hmade, hnew⟩ := Capture.forRange_ok hrange
      rw [hmade] at hmem
      rcases List.mem_append.mp hmem with hmem | hmem
      · exact Or.inl hmem
      · obtain ⟨entry, -, xs, hbody, hxs⟩ := hnew x hmem
        obtain ⟨target, rfl⟩ := closure_of_entryBody hbody hxs
        exact Or.inr ⟨_, _, _, rfl⟩
    obtain ⟨b₁, h₁, hrest⟩ := bind_ok h
    obtain ⟨b₂, hbackends, hlisteners⟩ := bind_ok h₁
    rcases ih hrest with hmem | hentry
    · rcases hloop hlisteners hmem with hmem | hentry
      · exact hloop hbackends hmem
      · exact Or.inr hentry
    · exact Or.inr hentry

/-- **The checks of an A record.**  Each is a copy of one of its health checks, for one of its
addresses. -/
theorem address_of_made {order : RangeOrder String (Option Zone)} {c : ConfigData}
    (hbuild : buildHealthChecks order c = .ok b) (hrec : recordAt c.zones key idx = some rec)
    (hvalue : rec.value = some (.a a)) {x : HealthCheckAction} (hx : x ∈ b.made)
    (hclosure : x.closure = .address key idx) : x ∈ addressActions key idx rec.name a := by
  refine made_forall (Q := fun x => x.closure = .address key idx →
    x ∈ addressActions key idx rec.name a) hbuild ?_ ?_ x hx hclosure
  · intro p x hp heq
    rw [(peerAction_ok hp).1] at heq
    cases heq
  · intro key' idx' rec' b₀ b₁ hrec' h hb₀ x hx heq
    unfold recordActions at h
    split at h
    · split at h
      next a' hvalue' =>
        obtain rfl := Except.ok.inj h
        rcases List.mem_append.mp hx with hx | hx
        · exact hb₀ x hx heq
        · -- a check of this record, so the records are the same
          obtain ⟨check, hcheck, hx'⟩ := List.mem_flatMap.mp hx
          obtain ⟨ip, hip, rfl⟩ := List.mem_map.mp hx'
          cases heq
          obtain rfl := Option.some.inj (hrec.symm.trans hrec')
          obtain rfl := RecordValue.a.inj (Option.some.inj (hvalue.symm.trans hvalue'))
          exact hx
      next => cases h
    · split at h
      next lb hvalue' =>
        rcases entry_of_lbRecordActions h hx with hx | ⟨side, var, subject, hentry⟩
        · exact hb₀ x hx heq
        · rw [hentry] at heq
          cases heq
      next => cases h
    · obtain rfl := Except.ok.inj h
      exact hb₀ x hx heq

end Made

/-! ## Rounds over the network -/

/-- A new round, with what each of its checks finds, or a section of one goroutine. -/
inductive NodeAct
  | round (nets : ℕ → Reachability)
  | section (i : ℕ) (sec : CheckSection) (ballot : Ballot)

/-- The step of the services, with the outcomes that `runCheck` gives. -/
def NodeAct.service (s : Services) : NodeAct → ServiceAct
  | .round nets => .startRound fun i => (s.checker.object i).outcome (nets i)
  | .section i sec ballot => .section i sec ballot

/-- Execute one step. -/
def checkedStep (s : Services) (a : NodeAct) : Option Services := s.step (a.service s)

section Runs

variable {order : RangeOrder String (Option Zone)} {c : Config} {b : Builder} {key : String}
  {idx : ℕ} {rec : Record} {a : ARecord}

/-- No check of the record is a ping. -/
def NoPing (a : ARecord) : Prop :=
  ∀ check ∈ a.healthCheck, check.type ≠ .ping ∧ check.type ≠ .other ""

instance (a : ARecord) : Decidable (NoPing a) :=
  inferInstanceAs (Decidable (∀ check ∈ a.healthCheck, check.type ≠ .ping ∧ check.type ≠ .other ""))

/-- What holds in every state of a run when no check of the record is a ping: they have only
failed, and once one of them has called its `FailedAction` its address is gone. -/
structure Losing (b : Builder) (key : String) (idx : ℕ) (a : ARecord) (s : Services) : Prop
    extends Tracks b s where
  kept : ∀ i < b.made.length, ∃ failed, s.checker.object i = { b.objects i with failed := failed }
  value : ∃ a', valueAt s.config.zones key idx = some (.a a') ∧ a'.addresses ⊆ a.addresses
  outcomes : ∀ j target, Targets b key idx target j → ∀ o ∈ s.checker.outcomes j, o = .failure
  gone : ∀ j target, Targets b key idx target j →
    s.checker.phase j = .marking ∨ (s.checker.object j).failed = true →
      ∀ ip ∈ addressesAt s.config.zones key idx, ipString ip ≠ target

/-- A check comes to have called its `FailedAction` by calling it. -/
theorem marked_of_runSection {h h' : HealthChecker} {i j : ℕ} {sec : CheckSection}
    (hunshared : Unshared h.checks) (hi : i < h.checks.length) (hj : j < h.checks.length)
    (hs : h.runSection i sec = some h')
    (hmarked : h'.phase j = .marking ∨ (h'.object j).failed = true) :
    (h.phase j = .marking ∨ (h.object j).failed = true) ∨ j = i ∧ sec = .failedAction := by
  by_cases hij : j = i
  · obtain rfl := hij
    cases sec with
    | failedAction => exact Or.inr ⟨rfl, rfl⟩
    | markFailed =>
      simp only [HealthChecker.runSection, Option.ite_none_right_eq_some] at hs
      exact Or.inl (Or.inl hs.1)
    | countFailure =>
      simp only [HealthChecker.runSection, Option.ite_none_right_eq_some, Option.some.injEq] at hs
      obtain ⟨-, rfl⟩ := hs
      rcases hmarked with hphase | hfailed
      · simp only [Function.update_self] at hphase
        split_ifs at hphase
      · exact Or.inl (Or.inr hfailed)
    | revive =>
      simp only [HealthChecker.runSection, Option.ite_none_right_eq_some, Option.some.injEq] at hs
      obtain ⟨-, rfl⟩ := hs
      rcases hmarked with hphase | hfailed
      · simp only [Function.update_self, reduceCtorEq] at hphase
      · exact Or.inl (Or.inr hfailed)
    | clearFailures =>
      simp only [HealthChecker.runSection, Option.ite_none_right_eq_some, Option.some.injEq] at hs
      obtain ⟨-, rfl⟩ := hs
      rcases hmarked with hphase | hfailed
      · simp only [Function.update_self, reduceCtorEq] at hphase
      · have hflag : ((h.setFailed j false).object j).failed = true := hfailed
        rw [object_setFailed_self] at hflag
        cases hflag
  · have hview : h'.view j = h.view j := view_runSection_ne hunshared hi hj hij hs
    have hphase : h'.phase j = h.phase j := congrArg CheckView.phase hview
    have hfailed : (h'.object j).failed = (h.object j).failed := congrArg CheckView.failed hview
    rw [hphase, hfailed] at hmarked
    exact Or.inl hmarked

/-- A check that has only failed revives nothing. -/
theorem not_revive_of_failures {h h' : HealthChecker} {i : ℕ} {sec : CheckSection}
    (hfail : ∀ o ∈ h.outcomes i, o = .failure) (hs : h.runSection i sec = some h') :
    h.invoked i sec ≠ some .revive := by
  intro hinvoked
  obtain ⟨rfl, -⟩ := invoked_revive hinvoked
  simp only [HealthChecker.runSection, Option.ite_none_right_eq_some] at hs
  obtain ⟨⟨-, hsuccess⟩, -⟩ := hs
  rw [outcome_eq_head] at hsuccess
  cases hfail _ (List.mem_of_head? hsuccess)

/-- The checks of the record are not pings, and have addresses as their targets. -/
theorem targets_address (hbuild : buildHealthChecks order c.toConfigData = .ok b)
    (hrec : recordAt c.zones key idx = some rec)
    (hvalue : rec.value = some (.a a)) (hping : NoPing a) {j : ℕ} {target : String}
    (hj : Targets b key idx target j) :
    ∃ ip, target = ipString ip ∧ (b.objects j).type ≠ .ping := by
  obtain ⟨check, hget, rfl⟩ := hj
  obtain ⟨hc, hmem, hx⟩ := List.mem_flatMap.mp
    (address_of_made hbuild hrec hvalue (List.mem_of_getElem? hget) rfl)
  obtain ⟨ip, -, heq⟩ := List.mem_map.mp hx
  obtain rfl : newCheck hc rec.name (ipString ip) = check := congrArg HealthCheckAction.check heq
  obtain ⟨hping', hempty⟩ := hping hc hmem
  refine ⟨ip, rfl, ?_⟩
  rw [Builder.objects, hget]
  show (if hc.type = .other "" then CheckType.ping else hc.type) ≠ .ping
  rw [if_neg hempty]
  exact hping'

/-- **The addresses after a section.**  No address comes back, and the `FailedAction` of a check of
the record removes the address of that check. -/
theorem Losing.addresses {s : Services} (hs : Losing b key idx a s) {i : ℕ} {sec : CheckSection}
    {ballot : Ballot} {h' : HealthChecker} {c' : Config}
    (hsec : s.checker.runSection i sec = some h') (hinvoke : s.invoke i sec ballot = some c') :
    ∃ a', valueAt c'.zones key idx = some (.a a') ∧
      (∀ ip ∈ a'.addresses, ip ∈ addressesAt s.config.zones key idx) ∧
      a'.addresses ⊆ a.addresses ∧
      (s.closure i = some (.address key idx) → sec = .failedAction →
        ∀ ip ∈ a'.addresses, ipString ip ≠ (s.checker.object i).target) := by
  obtain ⟨a₀, ha₀, hsub₀⟩ := hs.value
  rw [addressesAt_eq ha₀]
  rcases invoke_value ha₀ hinvoke with ⟨hnone, hafter⟩ | ⟨-, -, hafter⟩ | ⟨hclosure, hinvoked, -⟩
  · refine ⟨a₀, hafter, fun _ hip => hip, hsub₀, ?_⟩
    rintro hclosure rfl
    cases hnone hclosure
  · have hpruned : ∀ ip ∈ (a₀.prune (s.checker.object i).target).addresses, ip ∈ a₀.addresses :=
      fun ip hip => (ARecord.mem_prune.mp hip).1
    exact ⟨_, hafter, hpruned, fun ip hip => hsub₀ (hpruned ip hip),
      fun _ _ ip hip => (ARecord.mem_prune.mp hip).2⟩
  · -- a check that has only failed revives nothing
    rw [Services.closure, hs.built, Option.map_eq_some_iff] at hclosure
    obtain ⟨⟨check, closure⟩, hget, rfl⟩ := hclosure
    have hfail := hs.outcomes i check.target ⟨check, hget, rfl⟩
    exact absurd hinvoked (not_revive_of_failures hfail hsec)

section Step

variable {s s' : Services} (hs : Losing b key idx a s)
include hs

theorem Losing.checks_length : s.checker.checks.length = b.made.length := by
  rw [hs.simulates.checks_eq, List.length_range]

/-- The start of a round: each check of the record fails once more. -/
theorem Losing.round (hbuild : buildHealthChecks order c.toConfigData = .ok b)
    (hrec : recordAt c.zones key idx = some rec) (hvalue : rec.value = some (.a a))
    (hping : NoPing a) {nets : ℕ → Reachability} (h : checkedStep s (.round nets) = some s') :
    Losing b key idx a s' := by
  have htracks : Tracks b s' := hs.toTracks.step h
  simp only [checkedStep, NodeAct.service, Services.step, healthStep, Option.map_eq_some_iff,
    Option.ite_none_right_eq_some, Option.some.injEq] at h
  obtain ⟨checker, ⟨-, rfl⟩, rfl⟩ := h
  refine ⟨htracks, hs.kept, hs.value, fun j target hj o ho => ?_, fun j target hj hmarked => ?_⟩
  · rcases List.mem_cons.mp ho with rfl | ho
    · obtain ⟨ip, rfl, htype⟩ := targets_address hbuild hrec hvalue hping hj
      obtain ⟨failed, hobject⟩ := hs.kept j hj.lt
      refine @runCheck_address (nets j) _ ip ?_ ?_
      · rw [hobject]
        exact htype
      · rw [hs.target j hj.lt, hj.objects]
    · exact hs.outcomes j target hj o ho
  · rcases hmarked with hphase | hfailed
    · cases hphase
    · exact hs.gone j target hj (Or.inr hfailed)

/-- A section of one goroutine. -/
theorem Losing.section {i : ℕ} {sec : CheckSection} {ballot : Ballot}
    (h : checkedStep s (.section i sec ballot) = some s') : Losing b key idx a s' := by
  have htracks : Tracks b s' := hs.toTracks.step h
  have hunshared : Unshared s.checker.checks := by
    rw [hs.simulates.checks_eq]
    exact List.nodup_range
  simp only [checkedStep, NodeAct.service, Services.step, healthStep, Option.bind_eq_some_iff,
    Option.map_eq_some_iff, Option.ite_none_right_eq_some] at h
  obtain ⟨checker, ⟨hi, hsec⟩, config, hinvoke, rfl⟩ := h
  obtain ⟨a', ha', hkept, hsub, hpruned⟩ := hs.addresses hsec hinvoke
  refine ⟨htracks, fun j hj => ?_, ⟨a', ha', hsub⟩, fun j target hj o ho => ?_,
    fun j target hj hmarked => ?_⟩
  · obtain ⟨failed, hobject⟩ := hs.kept j hj
    obtain ⟨failed', hobject'⟩ := object_runSection hunshared hi (hs.checks_length ▸ hj) hsec
    rw [hobject] at hobject'
    exact ⟨failed', hobject'⟩
  · rw [outcomes_runSection hsec] at ho
    exact hs.outcomes j target hj o ho
  · rw [addressesAt_eq ha']
    have hj' : j < s.checker.checks.length := hs.checks_length ▸ hj.lt
    rcases marked_of_runSection hunshared hi hj' hsec hmarked with hold | ⟨rfl, rfl⟩
    · exact fun ip hip => hs.gone j target hj hold ip (hkept ip hip)
    · have htarget : (s.checker.object j).target = target := by
        rw [hs.target j hj.lt, hj.objects]
      have hclosure : s.closure j = some (.address key idx) := by
        obtain ⟨check, hget, -⟩ := hj
        rw [Services.closure, hs.built, hget]
        rfl
      rw [← htarget]
      exact hpruned hclosure rfl

end Step

theorem losing_start (hbuild : buildHealthChecks order c.toConfigData = .ok b)
    (hrec : recordAt c.zones key idx = some rec) (hvalue : rec.value = some (.a a)) :
    Losing b key idx a (.start c b) := by
  have htracks : Tracks b (.start c b) := tracks_start (fresh_of_build hbuild)
  have hobject : ∀ i < b.made.length, (Services.start c b).checker.object i = b.objects i := by
    intro i hi
    show b.objects ((List.range b.made.length).getD i 0) = b.objects i
    rw [List.getD_eq_getElem _ _ (by rw [List.length_range]; exact hi), List.getElem_range]
  refine ⟨htracks, fun i hi => ⟨_, hobject i hi⟩, ⟨a, ?_, fun _ hip => hip⟩, ?_, ?_⟩
  · rw [valueAt, show recordAt (Services.start c b).config.zones key idx = some rec from hrec]
    exact hvalue
  · intro j target hj o ho
    exact absurd ho List.not_mem_nil
  · intro j target hj hmarked
    rcases hmarked with hphase | hfailed
    · cases hphase
    · -- no check was made with its flag set
      rw [hobject j hj.lt] at hfailed
      obtain ⟨check, hget, -⟩ := hj
      have hfresh := fresh_of_build hbuild _ (List.mem_of_getElem? hget)
      rw [Builder.objects, hget] at hfailed
      exact absurd (hfailed.symm.trans hfresh) (by simp)

/-- The streak of outcomes that are all failures. -/
theorem streak_of_failures {os : List CheckOutcome} (h : ∀ o ∈ os, o = .failure) :
    streak os = os.length := by
  induction os with
  | nil => rfl
  | cons o os ih =>
    obtain rfl := h o List.mem_cons_self
    rw [streak, ih fun o' ho' => h o' (List.mem_cons_of_mem _ ho'), List.length_cons]

/-- A record without addresses answers no query for addresses. -/
theorem answers_of_no_address {zones : Zones} {a' : ARecord} {q : Question}
    (hvalue : valueAt zones key idx = some (.a a')) (hempty : a'.addresses = [])
    (hq : q.qtype = .a) (hserved : servedRecord zones q.name = .ok (recordAt zones key idx)) :
    answers zones q = .ok [] := by
  obtain ⟨rec, hrec, hrecvalue⟩ := Option.bind_eq_some_iff.mp hvalue
  rw [hrec] at hserved
  have hconvert : convertValue q.name rec.value = .ok [] := by
    rw [hrecvalue, convertValue, ARecord.convert, hempty]
    rfl
  rw [answers_eq (by rw [hq]; decide) (by rw [hq]; decide), hserved]
  show answerRecord q.name q.qtype rec = .ok []
  unfold answerRecord
  split
  · rw [if_pos hq]
    exact hconvert
  · rw [hconvert]
    rfl
  · rfl

/-- **A record that is not pinged loses its addresses.**  Take an A record with at least one health
check, none of which is a ping, in any configuration, and any run of the node's health checks in
which each action is one step, in whatever order the goroutines go on and whatever the network does.
(Two actions that both read the list before one of them writes it would keep an address.) Between
rounds, once as many rounds have been made as one of these health checks allows failures, the record
has no address left, and every query for addresses that is answered from it gets a name error. -/
theorem addresses_lost (hbuild : buildHealthChecks order c.toConfigData = .ok b)
    (hrec : recordAt c.zones key idx = some rec) (htype : rec.type = .a)
    (hvalue : rec.value = some (.a a)) (hping : NoPing a) {acts : List NodeAct} {s : Services}
    (hrun : run checkedStep (.start c b) acts = some s) (hidle : s.checker.Idle)
    (hrounds : ∃ check ∈ a.healthCheck, max 1 check.failures ≤ (s.checker.rounds.length : ℤ)) :
    addressesAt s.config.zones key idx = [] ∧
    ∀ q more, q.qtype = .a →
      servedRecord s.config.zones q.name = .ok (recordAt s.config.zones key idx) →
      serveDNS s.config.zones (q :: more) = .ok (reply []) := by
  have hlosing : Losing b key idx a s :=
    run_invariant (fun _ act _ hs h => by
      cases act with
      | round nets => exact hs.round hbuild hrec hvalue hping h
      | «section» i sec ballot => exact hs.section h) (losing_start hbuild hrec hvalue) hrun
  obtain ⟨a', ha', hsub⟩ := hlosing.value
  have hempty : addressesAt s.config.zones key idx = [] := by
    rw [List.eq_nil_iff_forall_not_mem]
    intro ip hip
    have hip' : ip ∈ a.addresses := by
      rw [addressesAt_eq ha'] at hip
      exact hsub hip
    -- the check of this address that has failed often enough
    obtain ⟨check, hcheck, hthreshold⟩ := hrounds
    have hmade : ⟨newCheck check rec.name (ipString ip), .address key idx⟩ ∈ b.made := by
      refine mem_buildHealthChecks hbuild hrec htype hvalue ?_
      exact List.mem_flatMap.mpr ⟨check, hcheck, List.mem_map.mpr ⟨ip, hip', rfl⟩⟩
    obtain ⟨j, hget⟩ := List.mem_iff_getElem?.mp hmade
    have hj : Targets b key idx (ipString ip) j := ⟨_, hget, rfl⟩
    have hfailures : (b.objects j).failures = check.failures := by
      rw [Builder.objects, hget]
      rfl
    have hdown : Down (b.objects j).failures (s.checker.outcomes j) := by
      rw [Down, streak_of_failures (hlosing.outcomes j _ hj), hfailures,
        HealthChecker.outcomes, List.length_map]
      exact hthreshold
    have hflag : (s.checker.object j).failed = true :=
      (hlosing.simulates.done hj.lt_checks (hlosing.phase_done hidle hj)).2.mpr hdown
    exact hlosing.gone j _ hj (Or.inr hflag) ip hip rfl
  refine ⟨hempty, fun q more hq hserved => ?_⟩
  rw [serveDNS, answers_of_no_address ha' (addressesAt_eq ha' ▸ hempty) hq hserved]
  rfl

end Runs

/-! ## One address -/

/-- A check over HTTP that is to fail once. -/
def httpCheck : HealthCheck := ⟨"", .http, second, 1, "", false⟩

/-- Everything that is asked answers. -/
def allAnswer : Reachability := ⟨fun _ _ => true, fun _ => none, fun _ _ => some 200⟩

/-- A round of the one check of that record. -/
def webRound : List NodeAct :=
  [.round fun _ => allAnswer, .section 0 .countFailure ⟨sortedOrder String ℤ, []⟩,
    .section 0 .failedAction ⟨sortedOrder String ℤ, []⟩,
    .section 0 .markFailed ⟨sortedOrder String ℤ, []⟩]

theorem buildHealthChecks_http :
    buildHealthChecks (sortedOrder String (Option Zone)) (webConfig [httpCheck]).toConfigData
      = .ok ⟨[⟨newCheck httpCheck "web.test." "10.0.0.1", .address "test." 0⟩], []⟩ := by
  show Except.ok
    (⟨[] ++ addressActions "test." 0 "web.test." (webRecord [httpCheck]), []⟩ : Builder) = _
  simp only [addressActions, webRecord, List.map_singleton, ipString_webAddress,
    List.flatMap_singleton, List.nil_append]

theorem addresses_lost_web :
    ∃ s, run checkedStep (.start (webConfig [httpCheck])
        ⟨[⟨newCheck httpCheck "web.test." "10.0.0.1", .address "test." 0⟩], []⟩) webRound = some s ∧
      addressesAt s.config.zones "test." 0 = [] := by
  have hrun : (run checkedStep (.start (webConfig [httpCheck])
      ⟨[⟨newCheck httpCheck "web.test." "10.0.0.1", .address "test." 0⟩], []⟩) webRound).any
        (fun s => decide (s.checker.Idle ∧ s.checker.rounds.length = 1)) = true := by
    decide +kernel
  obtain ⟨s, hs, hfacts⟩ := (Option.any_eq_true _ _).mp hrun
  obtain ⟨hidle, hone⟩ := of_decide_eq_true hfacts
  refine ⟨s, hs, (addresses_lost buildHealthChecks_http rfl rfl rfl (by decide) hs hidle
    ⟨httpCheck, List.mem_singleton.mpr rfl, ?_⟩).1⟩
  rw [hone]
  decide

end Border
