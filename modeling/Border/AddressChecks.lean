/-
# Health checking of A records

Every health check of an A record makes one check for each of its addresses.  All of them
work on the one list of addresses of the record: a `FailedAction` removes the address of its
check, a `ReviveAction` appends it, whatever the other checks of that address say.

`addresses_healthy` is about every run of the composed system.  The list never holds an
address that was not configured.  When every `ReviveAction` comes at a moment at which no
check of the address will be failed at the end of the round, or one of them is still to
remove the address, then after every round the list holds exactly the addresses none of
whose checks is failed.  A `ReviveAction` that comes at any other moment puts back an
address that is not healthy, and it is there at the end of the round.
-/
import Border.Services

namespace Border

open GoJson GoMap NetAddr Transition

/-! ## What is still to come in a round -/

section Due

variable {checks : List ℕ} {threshold : ℕ → ℤ} {h h' : HealthChecker} {i j : ℕ}
  {sec : CheckSection}

/-- The check reaches its threshold in this round, and `FailedAction` is still to be
called. -/
def FailureDue (h : HealthChecker) (threshold : ℤ) (j : ℕ) : Prop :=
  (streak (h.outcomes j) : ℤ) = max 1 threshold ∧ (h.phase j = .ready ∨ h.phase j = .failing)

/-- The check succeeds in this round after a failure, and `ReviveAction` is still to be
called. -/
def ReviveDue (h : HealthChecker) (j : ℕ) : Prop :=
  h.phase j = .ready ∧ h.outcome j = some .success ∧ h.failures j > 0

/-- Counting the failure that reaches the threshold leads to the call of `FailedAction`. -/
theorem failing_of_due (hsim : Simulates checks threshold h) (hi : i < checks.length)
    (hready : h.phase i = .ready) (hdue : (streak (h.outcomes i) : ℤ) = max 1 (threshold i))
    (hs : h.runSection i sec = some h') : h'.phase i = .failing := by
  obtain ⟨o, os, hos, hcount, hflag⟩ := hsim.ready hi hready
  have hfail : o = .failure := by
    cases o with
    | failure => rfl
    | success =>
      rw [hos, streak] at hdue
      omega
  rw [hos, hfail, streak] at hdue
  have houtcome : h.outcome i = some .failure := by
    rw [outcome_eq_head, hos, hfail]
    rfl
  have hnotdown : (h.object i).failed = false := by
    rw [← Bool.not_eq_true, hflag, Down]
    omega
  have hreach : h.failures i + 1 ≥ (h.object i).failures := by
    rw [hsim.thresholds i hi, hcount]
    omega
  rcases runSection_cases hs with ⟨-, -, rfl⟩ | ⟨hp, -⟩ | ⟨hp, -⟩ | ⟨-, ho, -⟩ | ⟨hp, -⟩
  · show Function.update h.phase i _ i = _
    rw [Function.update_self, if_pos ⟨hreach, hnotdown⟩]
  · exact absurd (hready.symm.trans hp) (by simp)
  · exact absurd (hready.symm.trans hp) (by simp)
  · exact absurd (houtcome.symm.trans ho) (by simp)
  · exact absurd (hready.symm.trans hp) (by simp)

/-- A `FailedAction` that is due stays so until it is called. -/
theorem failureDue_runSection (hsim : Simulates checks threshold h) (hj : j < checks.length)
    (hs : h.runSection i sec = some h') :
    FailureDue h' (threshold j) j ↔
      FailureDue h (threshold j) j ∧ ¬ (j = i ∧ sec = .failedAction) := by
  unfold FailureDue
  rw [outcomes_runSection hs]
  by_cases hji : j = i
  · obtain rfl := hji
    constructor
    · rintro ⟨hdue, hphase⟩
      have hfailing : h'.phase j = .failing := hphase.resolve_left (phase_runSection_self hs)
      -- only counting a failure leads to that phase
      have hready : h.phase j = .ready ∧ sec ≠ .failedAction := by
        cases sec <;>
          simp only [HealthChecker.runSection, Option.ite_none_right_eq_some,
            Option.some.injEq] at hs <;> obtain ⟨hguard, rfl⟩ := hs
        case countFailure => exact ⟨hguard.1, by simp⟩
        all_goals exact absurd ((Function.update_self _ _ _).symm.trans hfailing) (by simp)
      exact ⟨⟨hdue, Or.inl hready.1⟩, fun hand => hready.2 hand.2⟩
    · rintro ⟨⟨hdue, hready | hfailing⟩, hnot⟩
      · exact ⟨hdue, Or.inr (failing_of_due hsim hj hready hdue hs)⟩
      · cases sec <;>
          simp only [HealthChecker.runSection, Option.ite_none_right_eq_some, hfailing] at hs
        case failedAction => exact absurd ⟨rfl, rfl⟩ hnot
        all_goals exact absurd hs.1 (by simp)
  · rw [phase_runSection_ne hs hji]
    exact ⟨fun hdue => ⟨hdue, fun hand => hji hand.1⟩, fun hand => hand.1⟩

/-- A `ReviveAction` that is due stays so until it is called. -/
theorem reviveDue_runSection (hs : h.runSection i sec = some h') (hdue : ReviveDue h j)
    (hnot : ¬ (j = i ∧ h.invoked i sec = some .revive)) : ReviveDue h' j := by
  obtain ⟨hready, hsuccess, hpos⟩ := hdue
  by_cases hji : j = i
  · obtain rfl := hji
    cases sec <;>
      simp only [HealthChecker.runSection, Option.ite_none_right_eq_some, hready, hsuccess] at hs
    case revive => exact absurd ⟨rfl, if_pos hpos⟩ hnot
    all_goals exact absurd hs.1 (by simp)
  · refine ⟨(phase_runSection_ne hs hji).trans hready, ?_,
      (failures_runSection_ne hs hji).symm ▸ hpos⟩
    rw [outcome_eq_head, outcomes_runSection hs, ← outcome_eq_head]
    exact hsuccess

/-- **A new round.**  If it makes no action of the check due, the check is as failed after it
as before. -/
theorem down_startRound (hsim : Simulates checks threshold h) {outcome : ℕ → CheckOutcome}
    (hs : healthStep h (.startRound outcome) = some h') (hj : j < checks.length)
    (hfailure : ¬ FailureDue h' (threshold j) j) (hrevive : ¬ ReviveDue h' j) :
    Down (threshold j) (h'.outcomes j) ↔ Down (threshold j) (h.outcomes j) := by
  simp only [healthStep, Option.ite_none_right_eq_some, Option.some.injEq] at hs
  obtain ⟨hidle, rfl⟩ := hs
  have hdone : h.phase j = .done := hidle j (by rw [hsim.checks_eq]; exact hj)
  have hcount := (hsim.done hj hdone).1
  have hnew : ({ h with phase := fun _ => .ready, rounds := outcome :: h.rounds } :
      HealthChecker).outcomes j = outcome j :: h.outcomes j := rfl
  unfold FailureDue at hfailure
  unfold ReviveDue at hrevive
  rw [outcome_eq_head] at hrevive
  rw [hnew] at hfailure hrevive ⊢
  unfold Down
  cases ho : outcome j with
  | failure =>
    rw [ho] at hfailure
    have hne : ¬ (streak (.failure :: h.outcomes j) : ℤ) = max 1 (threshold j) := fun heq =>
      hfailure ⟨heq, Or.inl rfl⟩
    simp only [streak] at hne ⊢
    omega
  | success =>
    rw [ho] at hrevive
    have hzero : ¬ h.failures j > 0 := fun hpos => hrevive ⟨rfl, rfl, hpos⟩
    simp only [streak]
    omega

end Due

/-! ## What an action does to the addresses of a record -/

/-- The addresses the record at a place holds. -/
def addressesAt (zones : Zones) (key : String) (idx : ℕ) : List IP :=
  match valueAt zones key idx with
  | some (.a a) => a.addresses
  | _ => []

theorem addressesAt_eq {zones : Zones} {key : String} {idx : ℕ} {a : ARecord}
    (h : valueAt zones key idx = some (.a a)) : addressesAt zones key idx = a.addresses := by
  rw [addressesAt, h]

theorem ARecord.mem_prune {target : String} {a : ARecord} {ip : IP} :
    ip ∈ (a.prune target).addresses ↔ ip ∈ a.addresses ∧ ipString ip ≠ target := by
  rw [ARecord.prune, List.mem_filter, decide_eq_true_eq]

theorem ARecord.mem_putBack {target : String} {a : ARecord} {ip ip₀ : IP}
    (h : parseIP target = some ip₀) :
    ip ∈ (a.putBack target).addresses ↔ ip ∈ a.addresses ∨ ip = ip₀ := by
  rw [ARecord.putBack, h, Option.getD_some, List.mem_append, List.mem_singleton]

theorem elect_frame {ballot : Ballot} {c c' : Config} (h : elect ballot c = some c') :
    ∃ peers publisher, c' = { c with peers := peers, publisher := publisher } ∧
      ∀ p ∈ peers.elems, p ∈ c.peers.elems := by
  rw [elect, Option.ite_none_right_eq_some] at h
  have hframe := holdElection_frame ballot.order ballot.answers c
  split at h
  · exact absurd h.2 (by simp)
  next heq =>
    rw [heq] at hframe
    rw [← Option.some.inj h.2]
    exact hframe

/-- The actions of a peer's check are about the peers and the publisher only. -/
theorem perform_peer_frame {vars : List String} {ballot : Ballot} {target : String}
    {p : Option Peer} {action : CheckAction} {c c' : Config}
    (h : (CheckClosure.peer p).perform vars ballot target action c = some c') :
    ∃ peers publisher, c' = { c with peers := peers, publisher := publisher } ∧
      ∀ q ∈ peers.elems, q ∈ c.peers.elems ∨ q = p := by
  cases action with
  | failed =>
    rw [CheckClosure.perform] at h
    cases hremove : c.removePeer p with
    | error e =>
      rw [hremove] at h
      exact absurd h (by simp)
    | ok c₁ =>
      rw [hremove] at h
      obtain ⟨peers, publisher, rfl, hpeers⟩ := elect_frame h
      obtain ⟨remaining, hremaining, rfl⟩ := map_ok hremove
      exact ⟨peers, publisher, rfl, fun q hq =>
        Or.inl (mem_of_removePeer hremaining (hpeers q hq))⟩
  | revive =>
    have helect : elect ballot (c.addPeer p) = some c' := h
    obtain ⟨peers, publisher, rfl, hpeers⟩ := elect_frame helect
    refine ⟨peers, publisher, rfl, fun q hq => ?_⟩
    rcases List.mem_append.mp (hpeers q hq) with hq | hq
    · exact Or.inl hq
    · exact Or.inr (List.mem_singleton.mp hq)

section Record

variable {key : String} {idx : ℕ}

/-- **The value of an A record after a section.**  Only the actions of its own checks
change it. -/
theorem invoke_value {s : Services} {i : ℕ} {sec : CheckSection} {ballot : Ballot} {c' : Config}
    {a : ARecord} (hvalue : valueAt s.config.zones key idx = some (.a a))
    (h : s.invoke i sec ballot = some c') :
    ((s.closure i = some (.address key idx) → s.checker.invoked i sec = none) ∧
      valueAt c'.zones key idx = some (.a a)) ∨
    (s.closure i = some (.address key idx) ∧ s.checker.invoked i sec = some .failed ∧
      valueAt c'.zones key idx = some (.a (a.prune (s.checker.object i).target))) ∨
    (s.closure i = some (.address key idx) ∧ s.checker.invoked i sec = some .revive ∧
      valueAt c'.zones key idx = some (.a (a.putBack (s.checker.object i).target))) := by
  unfold Services.invoke at h
  cases hinvoked : s.checker.invoked i sec with
  | none =>
    rw [hinvoked] at h
    obtain rfl := Option.some.inj h
    exact Or.inl ⟨fun _ => rfl, hvalue⟩
  | some action =>
    cases hi : s.closure i with
    | none =>
      rw [hinvoked, hi] at h
      obtain rfl := Option.some.inj h
      exact Or.inl ⟨fun heq => absurd heq (by simp), hvalue⟩
    | some closure =>
      rw [hinvoked, hi] at h
      cases closure with
      | peer p =>
        refine Or.inl ⟨fun heq => absurd heq (by simp), ?_⟩
        obtain ⟨peers, publisher, rfl, -⟩ := perform_peer_frame h
        exact hvalue
      | address key' idx' =>
        obtain rfl := Option.some.inj h
        by_cases hplace : (key, idx) = (key', idx')
        · obtain ⟨rfl, rfl⟩ := Prod.mk.inj hplace
          right
          cases action with
          | failed =>
            refine Or.inl ⟨rfl, rfl, ?_⟩
            rw [valueAt_modifyValue_self, hvalue]
            rfl
          | revive =>
            refine Or.inr ⟨rfl, rfl, ?_⟩
            rw [valueAt_modifyValue_self, hvalue]
            rfl
        · refine Or.inl ⟨fun heq => ?_, ?_⟩
          · obtain ⟨rfl, rfl⟩ := CheckClosure.address.inj (Option.some.inj heq)
            exact absurd rfl hplace
          · rw [valueAt_modifyValue_ne _ _ hplace]
            exact hvalue
      | entry side key' idx' var subject =>
        obtain rfl := Option.some.inj h
        refine Or.inl ⟨fun heq => absurd heq (by simp), ?_⟩
        by_cases hplace : (key, idx) = (key', idx')
        · obtain ⟨rfl, rfl⟩ := Prod.mk.inj hplace
          rw [valueAt_modifyValue_self, hvalue]
          cases action <;> rfl
        · rw [valueAt_modifyValue_ne _ _ hplace]
          exact hvalue

/-! ## The checks of one record -/

/-- Check `j` was made for the record at that place, with that target. -/
def Targets (b : Builder) (key : String) (idx : ℕ) (target : String) (j : ℕ) : Prop :=
  ∃ check, b.made[j]? = some ⟨check, .address key idx⟩ ∧ check.target = target

theorem Targets.lt {b : Builder} {target : String} {j : ℕ} (h : Targets b key idx target j) :
    j < b.made.length := by
  obtain ⟨check, hget, -⟩ := h
  exact (List.getElem?_eq_some_iff.mp hget).1

theorem Targets.lt_checks {b : Builder} {target : String} {j : ℕ}
    (h : Targets b key idx target j) : j < (List.range b.made.length).length := by
  rw [List.length_range]
  exact h.lt

/-- Between rounds every check of the record is done. -/
theorem Tracks.phase_done {b : Builder} {s : Services} (ht : Tracks b s) (hidle : s.checker.Idle)
    {target : String} {j : ℕ} (hj : Targets b key idx target j) : s.checker.phase j = .done := by
  apply hidle
  rw [ht.simulates.checks_eq]
  exact hj.lt_checks

theorem Targets.objects {b : Builder} {target : String} {j : ℕ}
    (h : Targets b key idx target j) : (b.objects j).target = target := by
  obtain ⟨check, hget, htarget⟩ := h
  rw [Builder.objects, hget]
  exact htarget

/-- The condition on a step: when a check of the record is revived, no check with its target
ends this round failed, or one of them is still to call `FailedAction`. -/
def Careful (key : String) (idx : ℕ) (s : Services) : ServiceAct → Prop
  | .startRound _ => True
  | .section i sec _ =>
    ∀ target, Targets s.built key idx target i → s.checker.invoked i sec = some .revive →
      (∀ j, Targets s.built key idx target j →
        ¬ Down (s.built.objects j).failures (s.checker.outcomes j)) ∨
      ∃ j, Targets s.built key idx target j ∧
        FailureDue s.checker (s.built.objects j).failures j

/-- What holds in every state of a run: the record keeps an A value, with configured
addresses only. -/
structure Serving (b : Builder) (key : String) (idx : ℕ) (configured : List IP) (s : Services) :
    Prop extends Tracks b s where
  value : ∃ a, valueAt s.config.zones key idx = some (.a a) ∧ a.addresses ⊆ configured

/-- The addresses are valid: `ParseIP` inverts `IP.String` on them. -/
def Valid (addresses : List IP) : Prop := ∀ ip ∈ addresses, parseIP (ipString ip) = some ip

theorem Valid.inj {addresses : List IP} (hvalid : Valid addresses) {ip ip' : IP}
    (hip : ip ∈ addresses) (hip' : ip' ∈ addresses) (h : ipString ip = ipString ip') :
    ip = ip' := by
  have hparse := hvalid ip hip
  rw [h, hvalid ip' hip'] at hparse
  exact (Option.some.inj hparse).symm

section Runs

variable {order : RangeOrder String (Option Zone)} {c : Config} {b : Builder} {a : ARecord}
  (hbuild : buildHealthChecks order c.toConfigData = .ok b)
  (hvalue : valueAt c.zones key idx = some (.a a)) (hvalid : Valid a.addresses)
include hbuild hvalue hvalid

omit hvalid in
/-- The targets of the checks of the record are the texts of its addresses. -/
theorem target_configured {target : String} {i : ℕ} (hi : Targets b key idx target i) :
    ∃ ip ∈ a.addresses, target = ipString ip := by
  obtain ⟨check, hget, rfl⟩ := hi
  cases recordCheck_of_mem hbuild (List.mem_of_getElem? hget) (by simp) with
  | @address _ _ _ a' ip hvalue' hip htarget _ =>
    obtain rfl := RecordValue.a.inj (Option.some.inj (hvalue.symm.trans hvalue'))
    exact ⟨ip, hip, htarget⟩

omit hvalid in
/-- A check of the record, as the closure of a state of the run. -/
theorem Serving.targets {s : Services} (hserving : Serving b key idx a.addresses s) {i : ℕ}
    (hi : s.closure i = some (.address key idx)) :
    ∃ ip ∈ a.addresses, Targets b key idx (ipString ip) i ∧
      (s.checker.object i).target = ipString ip := by
  rw [Services.closure, hserving.built, Option.map_eq_some_iff] at hi
  obtain ⟨⟨check, closure⟩, hget, rfl⟩ := hi
  have htargets : Targets b key idx check.target i := ⟨check, hget, rfl⟩
  obtain ⟨ip, hip, heq⟩ := target_configured hbuild hvalue htargets
  refine ⟨ip, hip, heq ▸ htargets, ?_⟩
  rw [hserving.target i htargets.lt, htargets.objects, heq]

/-- **The addresses after a section.**  An address that a check of its own neither removes
nor puts back stays as it is. -/
theorem Serving.section {s : Services} (hserving : Serving b key idx a.addresses s) {i : ℕ}
    {sec : CheckSection} {ballot : Ballot} {c' : Config} (h : s.invoke i sec ballot = some c') :
    (∃ a', valueAt c'.zones key idx = some (.a a') ∧ a'.addresses ⊆ a.addresses) ∧
    ∀ ip ∈ a.addresses,
      (¬ (Targets b key idx (ipString ip) i ∧ s.checker.invoked i sec ≠ none) ∧
        (ip ∈ addressesAt c'.zones key idx ↔ ip ∈ addressesAt s.config.zones key idx)) ∨
      (Targets b key idx (ipString ip) i ∧ s.checker.invoked i sec = some .failed ∧
        ip ∉ addressesAt c'.zones key idx) ∨
      (Targets b key idx (ipString ip) i ∧ s.checker.invoked i sec = some .revive ∧
        ip ∈ addressesAt c'.zones key idx) := by
  obtain ⟨a', ha', hsub⟩ := hserving.value
  have hclosure : ∀ ip, Targets b key idx (ipString ip) i →
      s.closure i = some (.address key idx) := by
    rintro ip ⟨check, hget, -⟩
    rw [Services.closure, hserving.built, hget]
    rfl
  rw [addressesAt_eq ha']
  rcases invoke_value ha' h with ⟨hnone, hafter⟩ | ⟨hi, hinvoked, hafter⟩ | ⟨hi, hinvoked, hafter⟩
  · refine ⟨⟨a', hafter, hsub⟩, fun ip _ => Or.inl ⟨fun hand => ?_, by rw [addressesAt_eq hafter]⟩⟩
    exact hand.2 (hnone (hclosure ip hand.1))
  · obtain ⟨ip₀, hip₀, htargets, htarget⟩ := hserving.targets hbuild hvalue hi
    rw [htarget] at hafter
    refine ⟨⟨_, hafter, fun ip hip => hsub (ARecord.mem_prune.mp hip).1⟩, fun ip hip => ?_⟩
    rw [addressesAt_eq hafter, ARecord.mem_prune]
    by_cases heq : ip = ip₀
    · obtain rfl := heq
      exact Or.inr (Or.inl ⟨htargets, hinvoked, fun hmem => hmem.2 rfl⟩)
    · have hne : ipString ip ≠ ipString ip₀ := fun hstr => heq (hvalid.inj hip hip₀ hstr)
      refine Or.inl ⟨fun hand => ?_, And.left, fun hmem => ⟨hmem, hne⟩⟩
      exact hne (hand.1.objects.symm.trans htargets.objects)
  · obtain ⟨ip₀, hip₀, htargets, htarget⟩ := hserving.targets hbuild hvalue hi
    rw [htarget] at hafter
    have hmem : ∀ ip, ip ∈ (a'.putBack (ipString ip₀)).addresses ↔ ip ∈ a'.addresses ∨ ip = ip₀ :=
      fun _ => ARecord.mem_putBack (hvalid ip₀ hip₀)
    refine ⟨⟨_, hafter, fun ip hip => ?_⟩, fun ip hip => ?_⟩
    · rcases (hmem ip).mp hip with hip | rfl
      · exact hsub hip
      · exact hip₀
    rw [addressesAt_eq hafter, hmem]
    by_cases heq : ip = ip₀
    · exact Or.inr (Or.inr ⟨heq ▸ htargets, hinvoked, Or.inr heq⟩)
    · have hne : ipString ip ≠ ipString ip₀ := fun hstr => heq (hvalid.inj hip hip₀ hstr)
      refine Or.inl ⟨fun hand => ?_, fun hor => hor.resolve_right heq, Or.inl⟩
      exact hne (hand.1.objects.symm.trans htargets.objects)

theorem Serving.step {s s' : Services} {act : ServiceAct}
    (hserving : Serving b key idx a.addresses s) (hs : s.step act = some s') :
    Serving b key idx a.addresses s' := by
  refine ⟨hserving.toTracks.step hs, ?_⟩
  obtain ⟨-, -, hcases⟩ := Services.step_cases hs
  rcases hcases with ⟨outcome, rfl, hconfig⟩ | ⟨i, sec, ballot, rfl, -, -, hinvoke⟩
  · rw [hconfig]
    exact hserving.value
  · exact (hserving.section hbuild hvalue hvalid hinvoke).1

theorem serving_run {acts : List ServiceAct} {s : Services}
    (hrun : run Services.step (.start c b) acts = some s) : Serving b key idx a.addresses s :=
  run_invariant (fun _ _ _ hserving hs => hserving.step hbuild hvalue hvalid hs)
    ⟨tracks_start (fresh_of_build hbuild), a, hvalue, fun _ hip => hip⟩ hrun

/-- The address is listed when it ought to be, as far as nothing is still to come for it. -/
def Settles (b : Builder) (key : String) (idx : ℕ) (ip : IP) (s : Services) : Prop :=
  (∃ j, Targets b key idx (ipString ip) j ∧ FailureDue s.checker (b.objects j).failures j) ∨
  (∃ j, Targets b key idx (ipString ip) j ∧ ReviveDue s.checker j) ∨
  (ip ∈ addressesAt s.config.zones key idx ↔
    ∀ j, Targets b key idx (ipString ip) j →
      ¬ Down (b.objects j).failures (s.checker.outcomes j))

omit hbuild hvalue hvalid in
/-- Between rounds nothing is still to come. -/
theorem Settles.of_idle {s : Services} {ip : IP} (hsettles : Settles b key idx ip s)
    (ht : Tracks b s) (hidle : s.checker.Idle) :
    ip ∈ addressesAt s.config.zones key idx ↔
      ∀ j, Targets b key idx (ipString ip) j →
        ¬ Down (b.objects j).failures (s.checker.outcomes j) := by
  rcases hsettles with ⟨j, hj, -, hphase⟩ | ⟨j, hj, hphase, -⟩ | hiff
  · rw [ht.phase_done hidle hj] at hphase
    exact absurd hphase (by simp)
  · rw [ht.phase_done hidle hj] at hphase
    exact absurd hphase (by simp)
  · exact hiff

omit hbuild hvalid in
/-- Before the first round nothing has failed. -/
theorem settles_start {ip : IP} (hip : ip ∈ a.addresses) : Settles b key idx ip (.start c b) := by
  have hlisted : ip ∈ addressesAt c.zones key idx := by
    rw [addressesAt_eq hvalue]
    exact hip
  refine Or.inr (Or.inr ⟨fun _ j _ hdown => ?_, fun _ => hlisted⟩)
  have hzero : max 1 (b.objects j).failures ≤ ((streak [] : ℕ) : ℤ) := hdown
  simp only [streak] at hzero
  omega

/-- **One careful step.** -/
theorem Settles.step {s s' : Services} {act : ServiceAct} {ip : IP} (hip : ip ∈ a.addresses)
    (hserving : Serving b key idx a.addresses s) (hsettles : Settles b key idx ip s)
    (hcareful : Careful key idx s act) (hs : s.step act = some s') :
    Settles b key idx ip s' := by
  have hsim := hserving.simulates
  obtain ⟨-, hhealth, hcases⟩ := Services.step_cases hs
  rcases hcases with ⟨outcome, rfl, hconfig⟩ | ⟨i, sec, ballot, rfl, hi, hsec, hinvoke⟩
  · -- a round starts when nothing is left to come
    have hidle : s.checker.Idle := by
      simp only [ServiceAct.health, healthStep, Option.ite_none_right_eq_some] at hhealth
      exact hhealth.1
    have hiff := hsettles.of_idle hserving.toTracks hidle
    by_cases hf : ∃ j, Targets b key idx (ipString ip) j ∧
        FailureDue s'.checker (b.objects j).failures j
    · exact Or.inl hf
    by_cases hr : ∃ j, Targets b key idx (ipString ip) j ∧ ReviveDue s'.checker j
    · exact Or.inr (Or.inl hr)
    refine Or.inr (Or.inr ?_)
    rw [hconfig, hiff]
    refine forall_congr' fun j => forall_congr' fun hj => not_congr ?_
    exact (down_startRound hsim hhealth hj.lt_checks (fun h => hf ⟨j, hj, h⟩)
      (fun h => hr ⟨j, hj, h⟩)).symm
  · have hdown : ∀ j, Down (b.objects j).failures (s'.checker.outcomes j) ↔
        Down (b.objects j).failures (s.checker.outcomes j) := by
      intro j
      rw [outcomes_runSection hsec]
    rcases (hserving.section hbuild hvalue hvalid hinvoke).2 ip hip with
      ⟨hnot, hmem⟩ | ⟨htargets, hinvoked, hmem⟩ | ⟨htargets, hinvoked, hmem⟩
    · -- no action for this address: what is due stays due
      rcases hsettles with ⟨j, hj, hdue⟩ | ⟨j, hj, hdue⟩ | hiff
      · refine Or.inl ⟨j, hj, (failureDue_runSection hsim hj.lt_checks hsec).mpr ⟨hdue, ?_⟩⟩
        rintro ⟨rfl, rfl⟩
        exact hnot ⟨hj, by simp [HealthChecker.invoked]⟩
      · refine Or.inr (Or.inl ⟨j, hj, reviveDue_runSection hsec hdue ?_⟩)
        rintro ⟨rfl, hrevive⟩
        exact hnot ⟨hj, by rw [hrevive]; simp⟩
      · refine Or.inr (Or.inr (hmem.trans (hiff.trans ?_)))
        exact forall_congr' fun j => forall_congr' fun _ => not_congr (hdown j).symm
    · -- the check that removes the address ends the round failed
      refine Or.inr (Or.inr ⟨fun h => absurd h hmem, fun h => absurd ?_ (h i htargets)⟩)
      have hphase := failing_of_invoked hinvoked hsec
      rw [hdown i, Down]
      exact (hsim.failing htargets.lt_checks (Or.inl hphase)).2.ge
    · have hcase := hcareful (ipString ip) (hserving.built ▸ htargets) hinvoked
      rw [hserving.built] at hcase
      rcases hcase with hnone | ⟨j, hj, hdue⟩
      · refine Or.inr (Or.inr ⟨fun _ j hj => ?_, fun _ => hmem⟩)
        rw [hdown j]
        exact hnone j hj
      · refine Or.inl ⟨j, hj, (failureDue_runSection hsim hj.lt_checks hsec).mpr ⟨hdue, ?_⟩⟩
        rintro ⟨-, rfl⟩
        exact absurd hinvoked (by simp [HealthChecker.invoked])

theorem settles_run {ip : IP} (hip : ip ∈ a.addresses) {acts : List ServiceAct} {s : Services}
    (hcareful : Along Services.step (Careful key idx) (.start c b) acts)
    (hrun : run Services.step (.start c b) acts = some s) : Settles b key idx ip s :=
  (run_invariant_along (P := fun s => Serving b key idx a.addresses s ∧ Settles b key idx ip s)
    (fun _ _ _ hi hc hs => ⟨hi.1.step hbuild hvalue hvalid hs,
      hi.2.step hbuild hvalue hvalid hip hi.1 hc hs⟩)
    ⟨serving_run hbuild hvalue hvalid (run_nil _ _), settles_start hvalue hip⟩ hcareful hrun).2

/-- The address is listed, one of its checks ends the round failed, and nothing is left that
would remove it. -/
def Unhealthy (b : Builder) (key : String) (idx : ℕ) (ip : IP) (s : Services) : Prop :=
  ip ∈ addressesAt s.config.zones key idx ∧
  (∃ j, Targets b key idx (ipString ip) j ∧
    Down (b.objects j).failures (s.checker.outcomes j)) ∧
  ∀ j, Targets b key idx (ipString ip) j → ¬ FailureDue s.checker (b.objects j).failures j

/-- An unhealthy address stays listed until the end of the round. -/
theorem Unhealthy.step {s s' : Services} {act : ServiceAct} {ip : IP} (hip : ip ∈ a.addresses)
    (hserving : Serving b key idx a.addresses s) (hun : Unhealthy b key idx ip s)
    (hsection : ∀ outcome, act ≠ .startRound outcome) (hs : s.step act = some s') :
    Unhealthy b key idx ip s' := by
  obtain ⟨hmem, ⟨j, hj, hdown⟩, hnodue⟩ := hun
  obtain ⟨-, -, hcases⟩ := Services.step_cases hs
  rcases hcases with ⟨outcome, rfl, -⟩ | ⟨i, sec, ballot, rfl, hi, hsec, hinvoke⟩
  · exact absurd rfl (hsection outcome)
  · have hsim := hserving.simulates
    refine ⟨?_, ⟨j, hj, by rw [outcomes_runSection hsec]; exact hdown⟩, fun j hj hdue => ?_⟩
    · rcases (hserving.section hbuild hvalue hvalid hinvoke).2 ip hip with
        ⟨-, hiff⟩ | ⟨htargets, hinvoked, -⟩ | ⟨-, -, hmem'⟩
      · exact hiff.mpr hmem
      · have hphase := failing_of_invoked hinvoked hsec
        exact absurd ⟨(hsim.failing htargets.lt_checks (Or.inl hphase)).2, Or.inr hphase⟩
          (hnodue i htargets)
      · exact hmem'
    · exact hnodue j hj ((failureDue_runSection hsim hj.lt_checks hsec).mp hdue).1

theorem unhealthy_run {ip : IP} (hip : ip ∈ a.addresses) {acts : List ServiceAct}
    {s s' : Services} (hserving : Serving b key idx a.addresses s) (hun : Unhealthy b key idx ip s)
    (hsections : ∀ outcome, .startRound outcome ∉ acts)
    (hrun : run Services.step s acts = some s') :
    Serving b key idx a.addresses s' ∧ Unhealthy b key idx ip s' := by
  refine run_invariant_along
    (P := fun s => Serving b key idx a.addresses s ∧ Unhealthy b key idx ip s)
    (G := fun _ act => ∀ outcome, act ≠ .startRound outcome)
    (fun _ _ _ hi hc hs => ⟨hi.1.step hbuild hvalue hvalid hs,
      hi.2.step hbuild hvalue hvalid hip hi.1 hc hs⟩) ⟨hserving, hun⟩ ?_ hrun
  apply along_of_forall
  rintro act hact outcome rfl
  exact hsections outcome hact

/-- A step that is not careful puts back an unhealthy address. -/
theorem unhealthy_of_not_careful {s s' : Services} {act : ServiceAct}
    (hserving : Serving b key idx a.addresses s) (hbad : ¬ Careful key idx s act)
    (hs : s.step act = some s') : ∃ ip ∈ a.addresses, Unhealthy b key idx ip s' := by
  obtain ⟨-, -, hcases⟩ := Services.step_cases hs
  rcases hcases with ⟨outcome, rfl, -⟩ | ⟨i, sec, ballot, rfl, hi, hsec, hinvoke⟩
  · exact absurd trivial hbad
  · simp only [Careful, not_forall, not_or, not_exists, not_and, not_not, exists_prop] at hbad
    obtain ⟨target, htargets, hinvoked, ⟨j, hj, hdown⟩, hnodue⟩ := hbad
    rw [hserving.built] at htargets hj hdown hnodue
    obtain ⟨ip, hip, rfl⟩ := target_configured hbuild hvalue htargets
    refine ⟨ip, hip, ?_, ⟨j, hj, by rw [outcomes_runSection hsec]; exact hdown⟩, fun j hj hdue => ?_⟩
    · rcases (hserving.section hbuild hvalue hvalid hinvoke).2 ip hip with
        ⟨hnot, -⟩ | ⟨-, hinvoked', -⟩ | ⟨-, -, hmem⟩
      · exact absurd ⟨htargets, by rw [hinvoked]; simp⟩ hnot
      · exact absurd (hinvoked.symm.trans hinvoked') (by simp)
      · exact hmem
    · exact hnodue j hj ((failureDue_runSection hserving.simulates hj.lt_checks hsec).mp hdue).1

/-- The address is listed exactly when none of its checks is failed. -/
def ServedIfHealthy (key : String) (idx : ℕ) (ip : IP) (s : Services) : Prop :=
  ip ∈ addressesAt s.config.zones key idx ↔
    ∀ j, Targets s.built key idx (ipString ip) j → (s.checker.object j).failed = false

omit hbuild hvalue hvalid in
/-- Between rounds the flag of a check tells whether its streak has reached the
threshold. -/
theorem Tracks.failed_iff {s : Services} (ht : Tracks b s) (hidle : s.checker.Idle)
    {target : String} {j : ℕ} (hj : Targets b key idx target j) :
    (s.checker.object j).failed = false ↔
      ¬ Down (b.objects j).failures (s.checker.outcomes j) := by
  rw [← Bool.not_eq_true, (ht.simulates.done hj.lt_checks (ht.phase_done hidle hj)).2]

/-- **When an A record serves the healthy addresses.**  In every run only configured
addresses are listed.  In every run whose steps are all careful, a configured address is
listed after a round exactly when none of its checks is failed.  And a step of any run that
is not careful lists an address that is not healthy at the end of the round. -/
theorem addresses_healthy {acts : List ServiceAct} {s : Services}
    (hrun : run Services.step (.start c b) acts = some s) :
    addressesAt s.config.zones key idx ⊆ a.addresses ∧
    (Along Services.step (Careful key idx) (.start c b) acts → s.checker.Idle →
      ∀ ip ∈ a.addresses, ServedIfHealthy key idx ip s) ∧
    ∀ act s₁, s.step act = some s₁ → ¬ Careful key idx s act →
      ∃ ip ∈ a.addresses, ∀ acts' s₂, run Services.step s₁ acts' = some s₂ →
        (∀ outcome, .startRound outcome ∉ acts') → s₂.checker.Idle →
        ¬ ServedIfHealthy key idx ip s₂ := by
  have hserving := serving_run hbuild hvalue hvalid hrun
  refine ⟨?_, fun halong hidle ip hip => ?_, fun act s₁ hs hbad => ?_⟩
  · obtain ⟨a', ha', hsub⟩ := hserving.value
    rw [addressesAt_eq ha']
    exact hsub
  · have hsettles := settles_run hbuild hvalue hvalid hip halong hrun
    unfold ServedIfHealthy
    rw [hserving.built, hsettles.of_idle hserving.toTracks hidle]
    exact forall_congr' fun j => forall_congr' fun hj => (hserving.failed_iff hidle hj).symm
  · obtain ⟨ip, hip, hun⟩ := unhealthy_of_not_careful hbuild hvalue hvalid hserving hbad hs
    refine ⟨ip, hip, fun acts' s₂ hrun' hsections hidle hserved => ?_⟩
    obtain ⟨hserving₂, hmem, ⟨j, hj, hdown⟩, -⟩ := unhealthy_run hbuild hvalue hvalid hip
      (hserving.step hbuild hvalue hvalid hs) hun hsections hrun'
    have hfailed := hserved.mp hmem j (hserving₂.built ▸ hj)
    exact (hserving₂.failed_iff hidle hj).mp hfailed hdown

end Runs

end Record

/-! ## One address -/

/-- An address. -/
def webAddress : IP := v4InV6Prefix ++ [10, 0, 0, 1]

/-- An A record with one address and the given health checks. -/
def webRecord (healthCheck : List HealthCheck) : ARecord := ⟨[webAddress], 60, healthCheck⟩

/-- A configuration with that record and no peers. -/
def webConfig (healthCheck : List HealthCheck) : Config :=
  { Config.new [] with
    zones := Finmap.singleton "test." (some {
      soa := some ⟨"test.", "admin.test.", 60, 1, 60, 1, 120⟩
      ns := some ⟨["ns.test."], 60⟩
      records := some [some ⟨.a, "web.test.", none, some (.a (webRecord healthCheck))⟩] }) }

/-- A ping with a threshold. -/
def pingCheck (failures : ℤ) (target : String) : HealthCheck :=
  ⟨"ping", .ping, second, failures, target, false⟩

/-- The checks of that record, with one health check for each of the given thresholds. -/
def webChecks (thresholds : List ℤ) : Builder :=
  ⟨thresholds.map fun n => ⟨pingCheck n "10.0.0.1", .address "test." 0⟩, []⟩

theorem valid_webAddress : Valid [webAddress] := by
  intro ip hip
  rw [List.mem_singleton.mp hip]
  decide +kernel

theorem ipString_webAddress : ipString webAddress = "10.0.0.1" := by decide +kernel

theorem buildHealthChecks_web (thresholds : List ℤ) :
    buildHealthChecks (sortedOrder String (Option Zone))
      (webConfig (thresholds.map fun n => pingCheck n "")).toConfigData
        = .ok (webChecks thresholds) := by
  have hactions : addressActions "test." 0 "web.test."
      (webRecord (thresholds.map fun n => pingCheck n "")) = (webChecks thresholds).made := by
    simp only [addressActions, webRecord, List.map_singleton, ipString_webAddress,
      List.flatMap_map, webChecks]
    induction thresholds with
    | nil => rfl
    | cons n ns ih =>
      rw [List.flatMap_cons, ih, List.map_cons]
      rfl
  show Except.ok (⟨[] ++ addressActions "test." 0 "web.test." _, []⟩ : Builder) = _
  rw [hactions]
  rfl

/-- A section of a check of that record. -/
def webSection (i : ℕ) (sec : CheckSection) : ServiceAct :=
  .section i sec ⟨sortedOrder String ℤ, []⟩

/-- The address of a check with a threshold of two fails twice, is removed, and comes
back. -/
def webReturns : List ServiceAct :=
  [.startRound fun _ => .failure, webSection 0 .countFailure,
    .startRound fun _ => .failure, webSection 0 .countFailure, webSection 0 .failedAction,
    webSection 0 .markFailed,
    .startRound fun _ => .success, webSection 0 .revive, webSection 0 .clearFailures]

/-- A step that is careful for an evident reason: when a check is revived, no check at all
ends the round failed. -/
def PlainlyCareful (s : Services) : ServiceAct → Prop
  | .startRound _ => True
  | .section i sec _ =>
    s.checker.invoked i sec = some .revive →
      ∀ j < s.built.made.length, ¬ Down (s.built.objects j).failures (s.checker.outcomes j)

instance : ∀ (s : Services) (act : ServiceAct), Decidable (PlainlyCareful s act)
  | _, .startRound _ => isTrue trivial
  | s, .section i sec _ =>
    inferInstanceAs (Decidable (s.checker.invoked i sec = some .revive →
      ∀ j < s.built.made.length, ¬ Down (s.built.objects j).failures (s.checker.outcomes j)))

theorem careful_of_plainly {key : String} {idx : ℕ} {s : Services} {act : ServiceAct}
    (h : PlainlyCareful s act) : Careful key idx s act := by
  cases act with
  | startRound outcome => trivial
  | «section» i sec ballot =>
    intro target _ hinvoked
    exact Or.inl fun j hj => h hinvoked j hj.lt

theorem addresses_healthy_web :
    ∃ s, run Services.step (.start (webConfig [pingCheck 2 ""]) (webChecks [2])) webReturns
        = some s ∧
      ServedIfHealthy "test." 0 webAddress s := by
  have hrun : (run Services.step (.start (webConfig [pingCheck 2 ""]) (webChecks [2]))
      webReturns).any (fun s => s.checker.Idle) := by decide +kernel
  obtain ⟨s, hs, hfacts⟩ := (Option.any_eq_true _ _).mp hrun
  have halong : Along Services.step PlainlyCareful
      (.start (webConfig [pingCheck 2 ""]) (webChecks [2])) webReturns := by decide +kernel
  exact ⟨s, hs, (addresses_healthy (buildHealthChecks_web [2]) rfl valid_webAddress hs).2.1
    (along_mono (fun _ _ => careful_of_plainly) halong) (of_decide_eq_true hfacts) webAddress
    (List.mem_singleton.mpr rfl)⟩

/-- Two health checks of one address, with thresholds one and two: the first has failed and
goes on failing, and the second, which has failed once, puts the address back when it
succeeds. -/
theorem unhealthy_address_served :
    buildHealthChecks (sortedOrder String (Option Zone))
      (webConfig [pingCheck 1 "", pingCheck 2 ""]).toConfigData = .ok (webChecks [1, 2]) ∧
    ∃ s, run Services.step (.start (webConfig [pingCheck 1 "", pingCheck 2 ""]) (webChecks [1, 2]))
        [.startRound fun _ => .failure, webSection 0 .countFailure, webSection 0 .failedAction,
          webSection 0 .markFailed, webSection 1 .countFailure,
          .startRound fun i => if i = 0 then .failure else .success, webSection 0 .countFailure,
          webSection 1 .revive, webSection 1 .clearFailures] = some s ∧
      s.checker.Idle ∧ addressesAt s.config.zones "test." 0 = [webAddress] ∧
      Targets s.built "test." 0 (ipString webAddress) 0 ∧ (s.checker.object 0).failed = true ∧
      ¬ ServedIfHealthy "test." 0 webAddress s := by
  have hrun : (run Services.step (.start (webConfig [pingCheck 1 "", pingCheck 2 ""])
      (webChecks [1, 2]))
      [.startRound fun _ => .failure, webSection 0 .countFailure, webSection 0 .failedAction,
        webSection 0 .markFailed, webSection 1 .countFailure,
        .startRound fun i => if i = 0 then .failure else .success, webSection 0 .countFailure,
        webSection 1 .revive, webSection 1 .clearFailures]).any (fun s =>
      s.checker.Idle ∧ addressesAt s.config.zones "test." 0 = [webAddress] ∧
        s.built.made = (webChecks [1, 2]).made ∧ (s.checker.object 0).failed = true) := by
    decide +kernel
  obtain ⟨s, hs, hfacts⟩ := (Option.any_eq_true _ _).mp hrun
  obtain ⟨hidle, haddresses, hmade, hfailed⟩ := of_decide_eq_true hfacts
  have htargets : Targets s.built "test." 0 (ipString webAddress) 0 := by
    rw [ipString_webAddress]
    exact ⟨pingCheck 1 "10.0.0.1", by rw [hmade]; rfl, rfl⟩
  refine ⟨buildHealthChecks_web [1, 2], s, hs, hidle, haddresses, htargets, hfailed, fun h => ?_⟩
  have hmem : webAddress ∈ addressesAt s.config.zones "test." 0 := by
    rw [haddresses]
    exact List.mem_singleton.mpr rfl
  exact absurd (h.mp hmem 0 htargets) (by rw [hfailed]; simp)

end Border
