/-
# The list of peers over the rounds of the health checker

A peer leaves the list of a node in two ways: the `FailedAction` of its check removes it,
and every election removes the peers that do not answer.  It comes back in one: the
`ReviveAction` of its check appends it, when the check succeeds after any failure at all.

`peers_recover` is about every run of the composed system.  As long as no peer is revived
that is still listed, and no election drops a peer whose check does not account for it, a
round in which the checks of all peers succeed ends with every configured peer listed
exactly once.  A step that breaks this leaves some peer listed wrongly for good: until its
check fails again it is never listed exactly once.
-/
import Border.Services

namespace Border

open GoJson GoMap NetAddr Transition

/-! ## The checks of the peers -/

section Build

variable {order : RangeOrder String (Option Zone)} {c : ConfigData} {b : Builder}

/-- The first checks are those of the peers, in order, and no other check holds a peer. -/
theorem closure_peer_iff (hbuild : buildHealthChecks order c = .ok b) {i : ℕ} {p : Option Peer} :
    b.made[i]?.map HealthCheckAction.closure = some (.peer p) ↔ c.peers.elems[i]? = some p := by
  obtain ⟨peerChecks, rest, hmade, hclosures, -, hrest⟩ := buildHealthChecks_ok hbuild
  have hlen : peerChecks.length = c.peers.elems.length := by
    have := congrArg List.length hclosures
    rwa [List.length_map, List.length_map] at this
  have hget : peerChecks[i]?.map HealthCheckAction.closure
      = c.peers.elems[i]?.map CheckClosure.peer := by
    rw [← List.getElem?_map, hclosures, List.getElem?_map]
  rw [hmade]
  by_cases hi : i < peerChecks.length
  · rw [List.getElem?_append_left hi, hget, Option.map_eq_some_iff]
    constructor
    · rintro ⟨q, hq, heq⟩
      rw [hq, CheckClosure.peer.inj heq]
    · intro hp
      exact ⟨p, hp, rfl⟩
  · have hnone : c.peers.elems[i]? = none := List.getElem?_eq_none (by omega)
    rw [List.getElem?_append_right (by omega), hnone]
    constructor
    · intro h
      obtain ⟨a, ha, hclosure⟩ := Option.map_eq_some_iff.mp h
      cases hrest a (List.mem_of_getElem? ha) with
      | address => exact absurd hclosure (by simp)
      | entry => exact absurd hclosure (by simp)
    · intro h
      exact absurd h (by simp)

end Build

/-! ## What a step does to the list -/

/-- The peers that answered. -/
def reachable (ballot : Ballot) (peers : List (Option Peer)) : List (Option Peer) :=
  peers.filter fun p => ¬ Unreachable ballot.answers p

theorem count_reachable (ballot : Ballot) (peers : List (Option Peer)) (p : Option Peer) :
    (reachable ballot peers).count p
      = if Unreachable ballot.answers p then 0 else peers.count p := by
  unfold reachable
  by_cases hun : Unreachable ballot.answers p
  · rw [if_pos hun]
    apply List.count_eq_zero_of_not_mem
    intro hmem
    exact of_decide_eq_true (List.mem_filter.mp hmem).2 hun
  · rw [if_neg hun]
    exact List.count_filter (decide_eq_true hun)

section Peers

variable {configured : List (Option Peer)} (hd : DistinctNames configured)
include hd

theorem elect_peers {ballot : Ballot} {c c' : Config} (h : elect ballot c = some c')
    (hsub : c.peers.elems ⊆ configured) :
    c'.peers.elems = reachable ballot c.peers.elems := by
  rw [elect, Option.ite_none_right_eq_some] at h
  obtain ⟨hperm, h⟩ := h
  have hanswers : ∀ a ∈ ballot.answers, a.peer ∈ configured := fun a ha =>
    hsub (hperm.mem_iff.mp (List.mem_map_of_mem ha))
  obtain ⟨c₁, uptimes, hgather, hpeers⟩ := gatherUptimes_peers hd hanswers hsub ∅
  have hvote : vote ballot.order ballot.answers c
      = (findPeer (oldestPeer ballot.order uptimes) c₁.peers.elems, c₁) := by
    rw [vote, hgather]
  rw [holdElection, hvote] at h
  cases hfind : findPeer (oldestPeer ballot.order uptimes) c₁.peers.elems with
  | error e =>
    rw [hfind] at h
    cases e with
    | panic msg => exact absurd h (by simp)
    | error msg =>
      obtain rfl := Option.some.inj h
      exact hpeers
    | exit msg =>
      obtain rfl := Option.some.inj h
      exact hpeers
  | ok p =>
    rw [hfind] at h
    obtain rfl := Option.some.inj h
    exact hpeers

/-- What the action that a section invokes does to the list of peers. -/
theorem invoke_peers {s : Services} {i : ℕ} {sec : CheckSection} {ballot : Ballot} {c' : Config}
    (hsub : s.config.peers.elems ⊆ configured)
    (hclosure : ∀ p, s.closure i = some (.peer p) → p ∈ configured)
    (h : s.invoke i sec ballot = some c') :
    ((∀ p, s.closure i = some (.peer p) → s.checker.invoked i sec = none) ∧
      c'.peers = s.config.peers) ∨
    ∃ p, s.closure i = some (.peer p) ∧
      ((s.checker.invoked i sec = some .failed ∧
          c'.peers.elems = reachable ballot (s.config.peers.elems.filter (· ≠ p))) ∨
        (s.checker.invoked i sec = some .revive ∧
          c'.peers.elems = reachable ballot (s.config.peers.elems ++ [p]))) := by
  unfold Services.invoke at h
  cases hinvoked : s.checker.invoked i sec with
  | none =>
    rw [hinvoked] at h
    obtain rfl := Option.some.inj h
    exact Or.inl ⟨fun _ _ => rfl, rfl⟩
  | some action =>
    cases hi : s.closure i with
    | none =>
      rw [hinvoked, hi] at h
      obtain rfl := Option.some.inj h
      exact Or.inl ⟨fun p hp => absurd hp (by simp), rfl⟩
    | some closure =>
      rw [hinvoked, hi] at h
      cases closure with
      | peer p =>
        have hp : p ∈ configured := hclosure p hi
        refine Or.inr ⟨p, rfl, ?_⟩
        cases action with
        | failed =>
          simp only [CheckClosure.perform, Config.removePeer, removePeer_eq hd hp hsub,
            Except.map] at h
          have hsub' : s.config.peers.elems.filter (· ≠ p) ⊆ configured := fun q hq =>
            hsub (List.mem_of_mem_filter hq)
          exact Or.inl ⟨rfl, elect_peers hd h hsub'⟩
        | revive =>
          simp only [CheckClosure.perform, Config.addPeer] at h
          have hsub' : s.config.peers.elems ++ [p] ⊆ configured :=
            List.append_subset.mpr ⟨hsub, fun q hq => List.mem_singleton.mp hq ▸ hp⟩
          exact Or.inr ⟨rfl, elect_peers hd h hsub'⟩
      | address key idx =>
        obtain rfl := Option.some.inj h
        exact Or.inl ⟨fun p hp => absurd hp (by simp), rfl⟩
      | entry side key idx var subject =>
        obtain rfl := Option.some.inj h
        exact Or.inl ⟨fun p hp => absurd hp (by simp), rfl⟩

end Peers

/-! ## The invariant -/

/-- The check accounts for its peer not being listed: it fails in this round, or it has
failures counted and has not been revived in this round yet. -/
def Accounts (h : HealthChecker) (i : ℕ) : Prop :=
  h.outcome i = some .failure ∨ (h.phase i = .ready ∧ h.failures i > 0)

/-- The condition on a step: `ReviveAction` comes only for a peer that is not listed, and an
election fails to reach only peers whose checks account for it once the section is over. -/
def Orderly (s : Services) : ServiceAct → Prop
  | .startRound _ => True
  | .section i sec ballot =>
    ∀ p action, s.closure i = some (.peer p) → s.checker.invoked i sec = some action →
      (action = .revive → p ∉ s.config.peers.elems) ∧
      ∀ j q h, s.closure j = some (.peer q) → Unreachable ballot.answers q →
        s.checker.runSection i sec = some h → Accounts h j

/-- Which sections leave whether a check accounts for its peer as it was. -/
theorem accounts_runSection {h h' : HealthChecker} {i j : ℕ} {sec : CheckSection}
    (hs : h.runSection i sec = some h') (hkeep : j = i → h.invoked i sec ≠ some .revive) :
    Accounts h' j ↔ Accounts h j := by
  have houtcome : h'.outcome j = h.outcome j := by
    rw [outcome_eq_head, outcomes_runSection hs, ← outcome_eq_head]
  unfold Accounts
  rw [houtcome]
  by_cases hji : j = i
  · obtain rfl := hji
    -- a section leaves the phase `ready` after a failure, or without anything to revive
    have hnot : ¬ h'.phase j = .ready := phase_runSection_self hs
    have hready : h.phase j = .ready → h.failures j > 0 → h.outcome j = some .failure := by
      intro hphase hpos
      cases sec <;>
        simp only [HealthChecker.runSection, Option.ite_none_right_eq_some, hphase] at hs
      case countFailure => exact hs.1.2
      case revive => exact absurd (if_pos hpos) (hkeep rfl)
      all_goals exact absurd hs.1 (by simp)
    constructor
    · rintro (hfail | ⟨hphase, -⟩)
      · exact Or.inl hfail
      · exact absurd hphase hnot
    · rintro (hfail | ⟨hphase, hpos⟩)
      · exact Or.inl hfail
      · exact Or.inl (hready hphase hpos)
  · rw [phase_runSection_ne hs hji, failures_runSection_ne hs hji]

/-- Once it has been revived, a check accounts for nothing. -/
theorem not_accounts_revive {h h' : HealthChecker} {i : ℕ}
    (hs : h.runSection i .revive = some h') : ¬ Accounts h' i := by
  have houtcome : h'.outcome i = h.outcome i := by
    rw [outcome_eq_head, outcomes_runSection hs, ← outcome_eq_head]
  simp only [HealthChecker.runSection, Option.ite_none_right_eq_some, Option.some.injEq] at hs
  obtain ⟨⟨-, hsuccess⟩, rfl⟩ := hs
  rintro (hfail | ⟨hphase, -⟩)
  · rw [houtcome, hsuccess] at hfail
    exact absurd hfail (by simp)
  · exact absurd ((Function.update_self _ _ _).symm.trans hphase) (by simp)

/-- A new round keeps what its predecessor has left open. -/
theorem accounts_startRound {checks : List ℕ} {threshold : ℕ → ℤ} {h h' : HealthChecker}
    (hsim : Simulates checks threshold h) {outcome : ℕ → CheckOutcome}
    (hs : healthStep h (.startRound outcome) = some h') {i : ℕ} (hi : i < checks.length) :
    Accounts h' i ↔ outcome i = .failure ∨ Accounts h i := by
  simp only [healthStep, Option.ite_none_right_eq_some, Option.some.injEq] at hs
  obtain ⟨hidle, rfl⟩ := hs
  have hdone : h.phase i = .done := hidle i (by rw [hsim.checks_eq]; exact hi)
  have hcount := (hsim.done hi hdone).1
  have hhead : h.failures i > 0 ↔ h.outcome i = some .failure := by
    rw [hcount, outcome_eq_head]
    cases h.outcomes i with
    | nil => simp [streak]
    | cons o os => cases o <;> simp [streak]
  unfold Accounts
  rw [hdone, hhead]
  simp [HealthChecker.outcome]

/-- What holds in every state of a run: the checks follow their outcomes, and only
configured peers are ever listed. -/
structure Enlisted (c : Config) (b : Builder) (s : Services) : Prop extends Tracks b s where
  subset : s.config.peers.elems ⊆ c.peers.elems

section Runs

variable {order : RangeOrder String (Option Zone)} {c : Config} {b : Builder}

theorem Enlisted.index_lt {s : Services} (hr : Enlisted c b s) {i : ℕ} {closure : CheckClosure}
    (hi : s.closure i = some closure) : i < (List.range b.made.length).length := by
  rw [Services.closure, hr.built, Option.map_eq_some_iff] at hi
  obtain ⟨a, ha, -⟩ := hi
  rw [List.length_range]
  exact (List.getElem?_eq_some_iff.mp ha).1

theorem Enlisted.closure_iff (hbuild : buildHealthChecks order c.toConfigData = .ok b)
    {s : Services} (hr : Enlisted c b s) {i : ℕ} {p : Option Peer} :
    s.closure i = some (.peer p) ↔ c.peers.elems[i]? = some p := by
  rw [Services.closure, hr.built]
  exact closure_peer_iff hbuild

variable (hd : DistinctNames c.peers.elems)
  (hbuild : buildHealthChecks order c.toConfigData = .ok b)
include hd hbuild

/-- Each peer has one check. -/
theorem Enlisted.closure_inj {s : Services} (hr : Enlisted c b s) {i j : ℕ} {p : Option Peer}
    (hi : s.closure i = some (.peer p)) (hj : s.closure j = some (.peer p)) : i = j := by
  rw [hr.closure_iff hbuild] at hi hj
  have hnodup : c.peers.elems.Nodup := hd.nodup.of_map
  exact (List.getElem?_inj (List.getElem?_eq_some_iff.mp hi).1 hnodup).mp (hi.trans hj.symm)

theorem Enlisted.step {s s' : Services} {a : ServiceAct} (hr : Enlisted c b s)
    (hs : s.step a = some s') : Enlisted c b s' := by
  obtain ⟨-, -, hconfig⟩ := Services.step_cases hs
  refine ⟨hr.toTracks.step hs, ?_⟩
  rcases hconfig with ⟨outcome, -, hconfig⟩ | ⟨i, sec, ballot, -, -, -, hinvoke⟩
  · rw [hconfig]
    exact hr.subset
  · have hclosure : ∀ p, s.closure i = some (.peer p) → p ∈ c.peers.elems := fun p hp =>
      List.mem_of_getElem? ((hr.closure_iff hbuild).mp hp)
    rcases invoke_peers hd hr.subset hclosure hinvoke with
      ⟨-, hpeers⟩ | ⟨p, hp, ⟨-, hpeers⟩ | ⟨-, hpeers⟩⟩
    · rw [hpeers]
      exact hr.subset
    · rw [hpeers]
      exact fun q hq => hr.subset (List.mem_of_mem_filter (List.mem_of_mem_filter hq))
    · rw [hpeers]
      intro q hq
      rcases List.mem_append.mp (List.mem_of_mem_filter hq) with hq | hq
      · exact hr.subset hq
      · rw [List.mem_singleton.mp hq]
        exact hclosure p hp

theorem enlisted_run {acts : List ServiceAct} {s : Services}
    (hrun : run Services.step (.start c b) acts = some s) : Enlisted c b s := by
  have hstart : Enlisted c b (.start c b) :=
    ⟨tracks_start (fresh_of_build hbuild), fun p hp => hp⟩
  exact run_invariant (fun _ _ _ hr hs => hr.step hd hbuild hs) hstart hrun

/-- **What a step can do to one peer of the list.**  Sections without an action for a peer
keep it; the `FailedAction` of its check removes it and the `ReviveAction` adds it; and
whatever triggers an election, a peer that is not reached is gone. -/
theorem count_section {s : Services} {i : ℕ} {sec : CheckSection} {ballot : Ballot} {c' : Config}
    (hr : Enlisted c b s) (hinvoke : s.invoke i sec ballot = some c') {j : ℕ} {q : Option Peer}
    (hj : s.closure j = some (.peer q)) :
    ((∀ p, s.closure i = some (.peer p) → s.checker.invoked i sec = none) ∧
      c'.peers.elems.count q = s.config.peers.elems.count q) ∨
    ∃ p action, s.closure i = some (.peer p) ∧ s.checker.invoked i sec = some action ∧
      c'.peers.elems.count q = if Unreachable ballot.answers q then 0 else
        if j = i then (if action = .revive then s.config.peers.elems.count q + 1 else 0)
        else s.config.peers.elems.count q := by
  have hclosure : ∀ p, s.closure i = some (.peer p) → p ∈ c.peers.elems := fun p hp =>
    List.mem_of_getElem? ((hr.closure_iff hbuild).mp hp)
  have hpeer : ∀ p, s.closure i = some (.peer p) → (j = i ↔ q = p) := by
    intro p hp
    constructor
    · rintro rfl
      exact CheckClosure.peer.inj (Option.some.inj (hj.symm.trans hp))
    · rintro rfl
      exact hr.closure_inj hd hbuild hj hp
  rcases invoke_peers hd hr.subset hclosure hinvoke with
    ⟨hnone, hpeers⟩ | ⟨p, hp, ⟨hinvoked, hpeers⟩ | ⟨hinvoked, hpeers⟩⟩
  · exact Or.inl ⟨hnone, by rw [hpeers]⟩
  · refine Or.inr ⟨p, .failed, hp, hinvoked, ?_⟩
    rw [hpeers, count_reachable]
    congr 1
    by_cases hji : j = i
    · rw [if_pos hji, if_neg (by simp)]
      apply List.count_eq_zero_of_not_mem
      intro hmem
      exact of_decide_eq_true (List.mem_filter.mp hmem).2 ((hpeer p hp).mp hji)
    · rw [if_neg hji]
      exact List.count_filter (decide_eq_true fun heq => hji ((hpeer p hp).mpr heq))
  · refine Or.inr ⟨p, .revive, hp, hinvoked, ?_⟩
    rw [hpeers, count_reachable, List.count_append, List.count_singleton]
    congr 1
    by_cases hji : j = i
    · rw [if_pos hji, if_pos rfl, if_pos (by simp [(hpeer p hp).mp hji])]
    · rw [if_neg hji, if_neg (by simpa using fun heq => hji ((hpeer p hp).mpr heq.symm)),
        Nat.add_zero]

/-- Every peer is listed at most once, and exactly once unless its check accounts for it. -/
def ListedOnce (s : Services) : Prop :=
  ∀ i p, s.closure i = some (.peer p) →
    s.config.peers.elems.count p ≤ 1 ∧
      (¬ Accounts s.checker i → s.config.peers.elems.count p = 1)

omit hd hbuild in
theorem closure_step {s s' : Services} {a : ServiceAct} (hs : s.step a = some s') (i : ℕ) :
    s'.closure i = s.closure i := by
  rw [Services.closure, (Services.step_cases hs).1, Services.closure]

/-- **One orderly step.** -/
theorem ListedOnce.step {s s' : Services} {a : ServiceAct} (hr : Enlisted c b s)
    (hlisted : ListedOnce s) (horderly : Orderly s a) (hs : s.step a = some s') :
    ListedOnce s' := by
  intro j q hj
  rw [closure_step hs] at hj
  obtain ⟨hle, hone⟩ := hlisted j q hj
  have hlt := hr.index_lt hj
  obtain ⟨-, hhealth, hconfig⟩ := Services.step_cases hs
  rcases hconfig with ⟨outcome, rfl, hconfig⟩ | ⟨i, sec, ballot, rfl, hi, hsec, hinvoke⟩
  · rw [hconfig]
    refine ⟨hle, fun hnot => hone fun hacc => hnot ?_⟩
    exact (accounts_startRound hr.simulates hhealth hlt).mpr (Or.inr hacc)
  · rcases count_section hd hbuild hr hinvoke hj with
      ⟨hnone, hcount⟩ | ⟨p, action, hp, hinvoked, hcount⟩
    · rw [hcount]
      refine ⟨hle, fun hnot => hone fun hacc => hnot ?_⟩
      refine (accounts_runSection hsec fun hji => ?_).mpr hacc
      rw [hnone q (hji ▸ hj)]
      simp
    · obtain ⟨habsent, hreach⟩ := horderly p action hp hinvoked
      rw [hcount]
      by_cases hun : Unreachable ballot.answers q
      · rw [if_pos hun]
        exact ⟨by omega, fun hnot => absurd (hreach j q _ hj hun hsec) hnot⟩
      · rw [if_neg hun]
        by_cases hji : j = i
        · obtain rfl := hji
          obtain rfl := CheckClosure.peer.inj (Option.some.inj (hj.symm.trans hp))
          rw [if_pos rfl]
          cases action with
          | revive =>
            rw [if_pos rfl, List.count_eq_zero_of_not_mem (habsent rfl)]
            exact ⟨le_refl _, fun _ => rfl⟩
          | failed =>
            -- the check that removes its peer fails in this round
            have hphase := failing_of_invoked hinvoked hsec
            have hfail := (hr.simulates.failing hlt (Or.inl hphase)).1
            have hacc : Accounts s'.checker j :=
              (accounts_runSection hsec fun _ => by rw [hinvoked]; simp).mpr (Or.inl hfail)
            rw [if_neg (by simp)]
            exact ⟨by omega, fun hnot => absurd hacc hnot⟩
        · rw [if_neg hji]
          refine ⟨hle, fun hnot => hone fun hacc => hnot ?_⟩
          exact (accounts_runSection hsec fun heq => absurd heq hji).mpr hacc

/-- Before the first round every peer is listed as it was configured. -/
theorem listedOnce_start : ListedOnce (.start c b) := by
  intro i p hi
  have hmem : p ∈ c.peers.elems := List.mem_of_getElem? ((closure_peer_iff hbuild).mp hi)
  have hone : c.peers.elems.count p = 1 := List.count_eq_one_of_mem hd.nodup.of_map hmem
  exact ⟨hone.le, fun _ => hone⟩

theorem listedOnce_run {acts : List ServiceAct} {s : Services}
    (horderly : Along Services.step Orderly (.start c b) acts)
    (hrun : run Services.step (.start c b) acts = some s) : ListedOnce s :=
  (run_invariant_along (P := fun s => Enlisted c b s ∧ ListedOnce s)
    (fun _ _ _ hi ho hs => ⟨hi.1.step hd hbuild hs, hi.2.step hd hbuild hi.1 ho hs⟩)
    ⟨enlisted_run hd hbuild (run_nil _ _), listedOnce_start hd hbuild⟩ horderly hrun).2

/-- The peer is not listed exactly once, and its check does not account for it. -/
def Misplaced (i : ℕ) (p : Option Peer) (s : Services) : Prop :=
  s.closure i = some (.peer p) ∧ ¬ Accounts s.checker i ∧ s.config.peers.elems.count p ≠ 1

/-- A peer that is misplaced stays so until its check fails. -/
theorem Misplaced.step {s s' : Services} {a : ServiceAct} (hr : Enlisted c b s) {j : ℕ}
    {q : Option Peer} (hmis : Misplaced j q s)
    (hsuccess : ∀ outcome, a = .startRound outcome → outcome j = .success)
    (hs : s.step a = some s') : Misplaced j q s' := by
  obtain ⟨hj, hnot, hne⟩ := hmis
  have hlt := hr.index_lt hj
  obtain ⟨-, hhealth, hconfig⟩ := Services.step_cases hs
  refine ⟨(closure_step hs j).trans hj, ?_⟩
  rcases hconfig with ⟨outcome, rfl, hconfig⟩ | ⟨i, sec, ballot, rfl, hi, hsec, hinvoke⟩
  · rw [hconfig]
    refine ⟨fun hacc => ?_, hne⟩
    rcases (accounts_startRound hr.simulates hhealth hlt).mp hacc with hfail | hacc
    · rw [hsuccess outcome rfl] at hfail
      exact absurd hfail (by simp)
    · exact hnot hacc
  · have hkeep : j = i → s.checker.invoked i sec ≠ some .revive := by
      rintro rfl hinvoked
      obtain ⟨rfl, hpos⟩ := invoked_revive hinvoked
      simp only [HealthChecker.runSection, Option.ite_none_right_eq_some] at hsec
      exact hnot (Or.inr ⟨hsec.1.1, hpos⟩)
    refine ⟨fun hacc => hnot ((accounts_runSection hsec hkeep).mp hacc), ?_⟩
    rcases count_section hd hbuild hr hinvoke hj with ⟨-, hcount⟩ | ⟨p, action, -, hinvoked, hcount⟩
    · rw [hcount]
      exact hne
    · rw [hcount]
      by_cases hun : Unreachable ballot.answers q
      · rw [if_pos hun]
        simp
      · rw [if_neg hun]
        by_cases hji : j = i
        · have hfailed : action ≠ .revive := fun heq => hkeep hji (by rw [hinvoked, heq])
          rw [if_pos hji, if_neg hfailed]
          simp
        · rw [if_neg hji]
          exact hne

theorem misplaced_run {j : ℕ} {q : Option Peer} {acts : List ServiceAct} {s s' : Services}
    (hr : Enlisted c b s) (hmis : Misplaced j q s)
    (hsuccess : ∀ outcome, .startRound outcome ∈ acts → outcome j = .success)
    (hrun : run Services.step s acts = some s') : Misplaced j q s' := by
  refine (run_invariant_along (P := fun s => Enlisted c b s ∧ Misplaced j q s)
    (G := fun _ a => ∀ outcome, a = .startRound outcome → outcome j = .success)
    (fun _ _ _ hm ho hs => ⟨hm.1.step hd hbuild hs, hm.2.step hd hbuild hm.1 ho hs⟩)
    ⟨hr, hmis⟩ ?_ hrun).2
  apply along_of_forall
  rintro a ha outcome rfl
  exact hsuccess outcome ha

/-- A step that is not orderly misplaces a peer. -/
theorem misplaced_of_not_orderly {s s' : Services} {a : ServiceAct} (hr : Enlisted c b s)
    (hbad : ¬ Orderly s a) (hs : s.step a = some s') : ∃ i p, Misplaced i p s' := by
  obtain ⟨-, -, hconfig⟩ := Services.step_cases hs
  rcases hconfig with ⟨outcome, rfl, -⟩ | ⟨i, sec, ballot, rfl, hi, hsec, hinvoke⟩
  · exact absurd trivial hbad
  · simp only [Orderly, not_forall, exists_prop] at hbad
    obtain ⟨p, action, hp, hinvoked, hbad⟩ := hbad
    rw [not_and_or] at hbad
    rcases hbad with hlisted | hdropped
    · -- a peer that is listed is added once more
      rw [Classical.not_imp, not_not] at hlisted
      obtain ⟨rfl, hmem⟩ := hlisted
      obtain ⟨rfl, -⟩ := invoked_revive hinvoked
      refine ⟨i, p, (closure_step hs i).trans hp, not_accounts_revive hsec, ?_⟩
      have hpos : 0 < s.config.peers.elems.count p := List.count_pos_iff.mpr hmem
      rcases count_section hd hbuild hr hinvoke hp with
        ⟨hnone, -⟩ | ⟨p', action, -, hinvoked', hcount⟩
      · rw [hnone p hp] at hinvoked
        exact absurd hinvoked (by simp)
      · obtain rfl := Option.some.inj (hinvoked.symm.trans hinvoked')
        rw [hcount, if_pos rfl, if_pos rfl]
        split_ifs <;> omega
    · simp only [not_forall] at hdropped
      obtain ⟨j, q, h, hq, hun, hsec', hnot⟩ := hdropped
      obtain rfl := Option.some.inj (hsec.symm.trans hsec')
      refine ⟨j, q, (closure_step hs j).trans hq, hnot, ?_⟩
      rcases count_section hd hbuild hr hinvoke hq with
        ⟨hnone, -⟩ | ⟨p', action', -, -, hcount⟩
      · rw [hnone p hp] at hinvoked
        exact absurd hinvoked (by simp)
      · rw [hcount, if_pos hun]
        simp

/-- **When the list of peers recovers.**  In every run whose steps are all orderly, a round in
which the check of every peer succeeds ends with every configured peer listed exactly once.
And a step of any run that is not orderly loses or doubles a peer: as long as its check does
not fail again it is never listed exactly once. -/
theorem peers_recover {acts : List ServiceAct} {s : Services}
    (hrun : run Services.step (.start c b) acts = some s) :
    (Along Services.step Orderly (.start c b) acts → s.checker.Idle →
      (∀ i p, s.closure i = some (.peer p) → s.checker.outcome i = some .success) →
      ∀ p ∈ c.peers.elems, s.config.peers.elems.count p = 1) ∧
    ∀ a s₁, s.step a = some s₁ → ¬ Orderly s a →
      ∃ i p, p ∈ c.peers.elems ∧ s.closure i = some (.peer p) ∧
        ∀ acts' s₂, run Services.step s₁ acts' = some s₂ →
          (∀ outcome, .startRound outcome ∈ acts' → outcome i = .success) →
          s₂.config.peers.elems.count p ≠ 1 := by
  have hr := enlisted_run hd hbuild hrun
  constructor
  · intro halong hidle hsuccess p hp
    have hlisted := listedOnce_run hd hbuild halong hrun
    obtain ⟨i, hi⟩ := List.mem_iff_getElem?.mp hp
    have hclosure : s.closure i = some (.peer p) := (hr.closure_iff hbuild).mpr hi
    refine (hlisted i p hclosure).2 ?_
    -- the check has finished a round in which it succeeded
    have hdone : s.checker.phase i = .done := by
      apply hidle
      rw [hr.simulates.checks_eq]
      exact hr.index_lt hclosure
    rintro (hfail | ⟨hready, -⟩)
    · rw [hsuccess i p hclosure] at hfail
      exact absurd hfail (by simp)
    · rw [hdone] at hready
      exact absurd hready (by simp)
  · intro a s₁ hs hbad
    have hr₁ := hr.step hd hbuild hs
    obtain ⟨i, p, hmis⟩ := misplaced_of_not_orderly hd hbuild hr hbad hs
    have hi := (hr₁.closure_iff hbuild).mp hmis.1
    refine ⟨i, p, List.mem_of_getElem? hi, (hr.closure_iff hbuild).mpr hi,
      fun acts' s₂ hrun' hrounds => ?_⟩
    exact (misplaced_run hd hbuild hr₁ hmis hrounds hrun').2.2

end Runs

/-! ## One peer -/

/-- A configuration with the peer foo and nothing else. -/
def fooConfig : Config := { Config.new [] with peers := some [some (peerNamed "foo")] }

/-- The check of foo. -/
def fooChecks : Builder :=
  ⟨[⟨⟨"\"foo\" peer check", .http, second, 3, "http://foo:5309/ping", false⟩,
    .peer (some (peerNamed "foo"))⟩], []⟩

theorem buildHealthChecks_foo :
    buildHealthChecks (sortedOrder String (Option Zone)) fooConfig.toConfigData
      = .ok fooChecks := rfl

theorem distinctNames_foo : DistinctNames fooConfig.peers.elems := by
  refine ⟨fun p hp => ?_, List.nodup_singleton _⟩
  rw [List.mem_singleton.mp hp]
  exact ⟨"foo", rfl⟩

/-- A section of the check of foo; foo answers an election that asks it `n` times. -/
def fooSection (sec : CheckSection) (n : ℕ) : ServiceAct :=
  .section 0 sec ⟨sortedOrder String ℤ, List.replicate n ⟨some (peerNamed "foo"), .uptime 60⟩⟩

/-- Foo fails three times, is removed, and comes back. -/
def fooReturns : List ServiceAct :=
  [.startRound fun _ => .failure, fooSection .countFailure 0,
    .startRound fun _ => .failure, fooSection .countFailure 0,
    .startRound fun _ => .failure, fooSection .countFailure 0, fooSection .failedAction 0,
    fooSection .markFailed 0,
    .startRound fun _ => .success, fooSection .revive 1, fooSection .clearFailures 0]

/-- A step that is orderly for an evident reason: whoever is asked answers, and nobody is
revived into a list that is not empty. -/
def PlainlyOrderly (s : Services) : ServiceAct → Prop
  | .startRound _ => True
  | .section i sec ballot =>
    (∀ a ∈ ballot.answers, a.reply ≠ .unreachable) ∧
      (s.checker.invoked i sec = some .revive → s.config.peers.elems = [])

instance : ∀ (s : Services) (a : ServiceAct), Decidable (PlainlyOrderly s a)
  | _, .startRound _ => isTrue trivial
  | s, .section i sec ballot =>
    inferInstanceAs (Decidable ((∀ a ∈ ballot.answers, a.reply ≠ .unreachable) ∧
      (s.checker.invoked i sec = some .revive → s.config.peers.elems = [])))

theorem orderly_of_plainly {s : Services} {a : ServiceAct} (h : PlainlyOrderly s a) :
    Orderly s a := by
  cases a with
  | startRound outcome => trivial
  | «section» i sec ballot =>
    intro p action _ hinvoked
    refine ⟨fun hrevive => ?_, fun j q h' _ hun _ => ?_⟩
    · rw [hrevive] at hinvoked
      rw [h.2 hinvoked]
      exact List.not_mem_nil
    · obtain ⟨a, ha, -, hreply⟩ := hun
      exact absurd hreply (h.1 a ha)

/-- Foo is removed after three failures and listed once again after a success. -/
theorem peers_recover_foo :
    ∃ s, run Services.step (.start fooConfig fooChecks) fooReturns = some s ∧
      s.config.peers.elems.count (some (peerNamed "foo")) = 1 := by
  have hrun : (run Services.step (.start fooConfig fooChecks) fooReturns).any (fun s =>
      s.checker.Idle ∧ s.checker.outcome 0 = some .success) := by decide +kernel
  obtain ⟨s, hs, hfacts⟩ := (Option.any_eq_true _ _).mp hrun
  obtain ⟨hidle, hsuccess⟩ := of_decide_eq_true hfacts
  have halong : Along Services.step PlainlyOrderly (.start fooConfig fooChecks) fooReturns := by
    decide +kernel
  refine ⟨s, hs, (peers_recover distinctNames_foo buildHealthChecks_foo hs).1
    (along_mono (fun _ _ => orderly_of_plainly) halong) hidle (fun i p hi => ?_) _
    (List.mem_singleton.mpr rfl)⟩
  have hr := enlisted_run distinctNames_foo buildHealthChecks_foo hs
  have hi' := (hr.closure_iff buildHealthChecks_foo).mp hi
  obtain ⟨hlt, -⟩ := List.getElem?_eq_some_iff.mp hi'
  obtain rfl : i = 0 := by
    have hlen : fooConfig.peers.elems.length = 1 := rfl
    omega
  exact hsuccess

/-- One failure and one success: foo was never removed, and is now listed twice. -/
theorem peers_doubled :
    buildHealthChecks (sortedOrder String (Option Zone)) fooConfig.toConfigData = .ok fooChecks ∧
    ∃ s, run Services.step (.start fooConfig fooChecks)
        [.startRound fun _ => .failure, fooSection .countFailure 0,
          .startRound fun _ => .success, fooSection .revive 2, fooSection .clearFailures 0] = some s ∧
      s.checker.Idle ∧ s.checker.outcome 0 = some .success ∧
      s.config.peers.elems.count (some (peerNamed "foo")) = 2 := by
  have hrun : (run Services.step (.start fooConfig fooChecks)
      [.startRound fun _ => .failure, fooSection .countFailure 0,
        .startRound fun _ => .success, fooSection .revive 2, fooSection .clearFailures 0]).any
      (fun s => s.checker.Idle ∧ s.checker.outcome 0 = some .success ∧
        s.config.peers.elems.count (some (peerNamed "foo")) = 2) := by decide +kernel
  obtain ⟨s, hs, hfacts⟩ := (Option.any_eq_true _ _).mp hrun
  exact ⟨buildHealthChecks_foo, s, hs, of_decide_eq_true hfacts⟩

end Border
