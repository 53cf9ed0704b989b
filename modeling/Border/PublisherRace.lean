/-
# Elections that run side by side

The peer actions of `buildHealthChecks` edit the list of peers and then hold an election.  In
one round of health checks several of them run at the same time, on one configuration.  Each
election decides on what it has gathered, looks the winner up in the list, and publishes it in
a later step.

* `publisher_listed` : as long as no winner is taken off the list before it is published, the
  publisher is a peer of the list once all actions have completed;
* `publisher_not_listed` : an old election that overwrites a newer one.
-/
import Border.Gathering

namespace Border

open GoJson GoMap Transition

/-! ## Peer actions side by side -/

/-- An action of a peer's health check. -/
inductive PeerAction
  /-- `RemovePeer`, then `holdElection`. -/
  | failed (peer : Option Peer)
  /-- `AddPeer`, then `holdElection`. -/
  | revived (peer : Option Peer)

/-- How far an action is. -/
inductive ActionPhase
  | waiting
  /-- `RemovePeer` has scanned the list, and holds the others. -/
  | removing (peers : List (Option Peer))
  | gathering (g : Gather)
  /-- `Vote` has found the peer; `SetPublisher` is next. -/
  | voted (peer : Option Peer)
  | done
  deriving DecidableEq

/-- The configuration, and the progress of every action. -/
structure ActionsState where
  config : Config
  phases : ℕ → ActionPhase

/-- Every action is about to start. -/
def ActionsState.start (c : Config) : ActionsState := ⟨c, fun _ => .waiting⟩

def ActionsState.move (s : ActionsState) (i : ℕ) (c : Config) (p : ActionPhase) : ActionsState :=
  ⟨c, Function.update s.phases i p⟩

inductive ActionStep
  /-- The next section of `RemovePeer` or `AddPeer`. -/
  | edit
  | gather (act : GatherAct)
  /-- The loop over the uptimes, and `FindPeer`. -/
  | find (order : RangeOrder String ℤ)
  | publish

/-- A step of action `i`.  The elections succeed: a panic of the wait group and a name that is
not found end the run. -/
def actionsStep (actions : List PeerAction) (s : ActionsState) :
    ℕ × ActionStep → Option ActionsState
  | (i, .edit) =>
    match actions[i]?, s.phases i with
    | some (.failed peer), .waiting =>
      match removePeer peer s.config.peers.elems with
      | .error _ => none
      | .ok peers => some (s.move i s.config (.removing peers))
    | some (.failed _), .removing peers =>
      some (s.move i { s.config with peers := some peers } (.gathering .start))
    | some (.revived peer), .waiting => some (s.move i (s.config.addPeer peer) (.gathering .start))
    | _, _ => none
  | (i, .gather act) =>
    match s.phases i with
    | .gathering g =>
      match g.step s.config act with
      | some (c, g') => if g'.counter < 0 then none else some (s.move i c (.gathering g'))
      | none => none
    | _ => none
  | (i, .find order) =>
    match s.phases i with
    | .gathering g =>
      if g.phase = .returned then
        match findPeer (oldestPeer order g.uptimes) s.config.peers.elems with
        | .ok peer => some (s.move i s.config (.voted peer))
        | .error _ => none
      else none
    | _ => none
  | (i, .publish) =>
    match s.phases i with
    | .voted peer => some (s.move i (s.config.setPublisher peer) .done)
    | _ => none

/-- What a step can do: it works on the list, it votes, or it publishes. -/
inductive ActionMove (s : ActionsState) (i : ℕ) : ActionsState → Prop
  | work {c : Config} {p : ActionPhase} (hvoted : ∀ peer, s.phases i ≠ .voted peer)
      (hp : ∀ peer, p ≠ .voted peer) (hdone : p ≠ .done) : ActionMove s i (s.move i c p)
  | vote {name : String} {peer : Option Peer}
      (hfind : findPeer name s.config.peers.elems = .ok peer) :
      ActionMove s i (s.move i s.config (.voted peer))
  | publish {peer : Option Peer} (hphase : s.phases i = .voted peer) :
      ActionMove s i (s.move i (s.config.setPublisher peer) .done)

theorem actionsStep_move {actions : List PeerAction} {s s' : ActionsState} {i : ℕ}
    {a : ActionStep} (h : actionsStep actions s (i, a) = some s') : ActionMove s i s' := by
  cases a with
  | edit =>
    rw [actionsStep] at h
    split at h
    · rename_i hphase
      split at h
      · exact absurd h (by simp)
      · rw [← Option.some.inj h]
        exact .work (by simp [hphase]) (by simp) (by simp)
    · rename_i hphase
      rw [← Option.some.inj h]
      exact .work (by simp [hphase]) (by simp) (by simp)
    · rename_i hphase
      rw [← Option.some.inj h]
      exact .work (by simp [hphase]) (by simp) (by simp)
    · exact absurd h (by simp)
  | gather act =>
    rw [actionsStep] at h
    split at h
    · rename_i g hphase
      split at h
      · split_ifs at h
        rw [← Option.some.inj h]
        exact .work (by simp [hphase]) (by simp) (by simp)
      · exact absurd h (by simp)
    · exact absurd h (by simp)
  | find order =>
    rw [actionsStep] at h
    split at h
    · split_ifs at h
      split at h
      · rename_i hfind
        rw [← Option.some.inj h]
        exact .vote hfind
      · exact absurd h (by simp)
    · exact absurd h (by simp)
  | publish =>
    rw [actionsStep] at h
    split at h
    · rename_i hphase
      rw [← Option.some.inj h]
      exact .publish hphase
    · exact absurd h (by simp)

/-- Only the given actions move. -/
theorem lt_of_actionsStep {actions : List PeerAction} {s s' : ActionsState} {i : ℕ}
    {a : ActionStep} (hidle : ∀ j, actions.length ≤ j → s.phases j = .waiting)
    (h : actionsStep actions s (i, a) = some s') : i < actions.length := by
  by_contra hle
  have hphase := hidle i (by omega)
  cases a with
  | edit =>
    rw [actionsStep, List.getElem?_eq_none (by omega)] at h
    exact absurd h (by simp)
  | gather act | find order | publish =>
    rw [actionsStep, hphase] at h
    exact absurd h (by simp)

/-! ## The publisher -/

/-- The peer's name is the name of a peer of the list. -/
def Listed (peers : List (Option Peer)) (peer : Option Peer) : Prop :=
  ∃ q ∈ peers, Named q ∧ Peer.name q = Peer.name peer

instance (peers : List (Option Peer)) (peer : Option Peer) : Decidable (Listed peers peer) :=
  inferInstanceAs (Decidable (∃ q ∈ peers, Named q ∧ Peer.name q = Peer.name peer))

/-- A peer that is found is listed. -/
theorem listed_of_findPeer {name : String} {peers : List (Option Peer)} {peer : Option Peer}
    (h : findPeer name peers = .ok peer) : Listed peers peer := by
  refine ⟨peer, ?_, ⟨name, (findPeer_ok h).2⟩, rfl⟩
  induction peers with
  | nil => exact absurd h (by simp [findPeer])
  | cons q peers ih =>
    rw [findPeer] at h
    split at h
    · exact absurd h (by simp)
    · split_ifs at h
      · rw [Except.ok.inj h]
        exact List.mem_cons_self
      · exact List.mem_cons_of_mem _ (ih h)

/-- The peer that an election has found, and not published yet, is on the list. -/
def ActionPhase.KeptBy (peers : List (Option Peer)) : ActionPhase → Prop
  | .voted peer => Listed peers peer
  | _ => True

instance (peers : List (Option Peer)) : ∀ p : ActionPhase, Decidable (p.KeptBy peers)
  | .voted peer => inferInstanceAs (Decidable (Listed peers peer))
  | .waiting | .removing _ | .gathering _ | .done => isTrue trivial

/-- The step takes no peer off the list that an election has found and not published yet. -/
def KeepsVoted (actions : List PeerAction) (s : ActionsState) (a : ℕ × ActionStep) : Prop :=
  ∀ s' ∈ actionsStep actions s a, ∀ i < actions.length,
    (s.phases i).KeptBy s'.config.peers.elems

instance (actions : List PeerAction) (s : ActionsState) (a : ℕ × ActionStep) :
    Decidable (KeepsVoted actions s a) :=
  inferInstanceAs (Decidable (∀ s' ∈ actionsStep actions s a, ∀ i < actions.length,
    (s.phases i).KeptBy s'.config.peers.elems))

/-- What holds as long as no winner is taken off the list: an action is under way, or the
publisher is listed. -/
structure Electing (actions : List PeerAction) (s : ActionsState) : Prop where
  idle : ∀ i, actions.length ≤ i → s.phases i = .waiting
  kept : ∀ i, (s.phases i).KeptBy s.config.peers.elems
  published : (∃ i < actions.length, s.phases i ≠ .done) ∨
    Listed s.config.peers.elems s.config.publisher

theorem electing_start {actions : List PeerAction} {c : Config}
    (hstart : actions ≠ [] ∨ Listed c.peers.elems c.publisher) :
    Electing actions (.start c) := by
  refine ⟨fun _ _ => rfl, fun _ => trivial, ?_⟩
  rcases hstart with hne | hlisted
  · exact Or.inl ⟨0, List.length_pos_iff.mpr hne, by simp [ActionsState.start]⟩
  · exact Or.inr hlisted

section Preservation

variable {actions : List PeerAction} {s s' : ActionsState} {i : ℕ}

theorem update_idle {p : ActionPhase} (hs : Electing actions s) (hi : i < actions.length) (j : ℕ)
    (hj : actions.length ≤ j) : Function.update s.phases i p j = .waiting := by
  rw [Function.update_of_ne (by omega)]
  exact hs.idle j hj

theorem update_kept {peers : List (Option Peer)} {p : ActionPhase}
    (hs : ∀ j, (s.phases j).KeptBy peers) (hp : p.KeptBy peers) (j : ℕ) :
    (Function.update s.phases i p j).KeptBy peers := by
  by_cases hj : j = i
  · subst hj
    rwa [Function.update_self]
  · rw [Function.update_of_ne hj]
    exact hs j

/-- A step that keeps the winners on the list. -/
theorem Electing.step {a : ActionStep} (hs : Electing actions s)
    (hkeeps : KeepsVoted actions s (i, a)) (h : actionsStep actions s (i, a) = some s') :
    Electing actions s' := by
  have hi := lt_of_actionsStep hs.idle h
  have hall : ∀ j, (s.phases j).KeptBy s'.config.peers.elems := by
    intro j
    by_cases hj : j < actions.length
    · exact hkeeps s' h j hj
    · rw [hs.idle j (by omega)]
      trivial
  cases actionsStep_move h with
  | @work c p hvoted hp hdone =>
    have hkept : p.KeptBy c.peers.elems := by
      cases p with
      | voted peer => exact absurd rfl (hp peer)
      | waiting | removing peers | gathering g | done => trivial
    refine ⟨update_idle hs hi, update_kept hall hkept, Or.inl ⟨i, hi, ?_⟩⟩
    show Function.update s.phases i p i ≠ .done
    rwa [Function.update_self]
  | vote hfind =>
    refine ⟨update_idle hs hi, update_kept hall (listed_of_findPeer hfind), Or.inl ⟨i, hi, ?_⟩⟩
    show Function.update s.phases i _ i ≠ .done
    rw [Function.update_self]
    simp
  | publish hphase =>
    have hlisted := hs.kept i
    rw [hphase] at hlisted
    exact ⟨update_idle hs hi, update_kept hall trivial, Or.inr hlisted⟩

/-- A step that takes a winner off the list: publishing it then leaves a publisher that is not
listed. -/
theorem publishes_unlisted {a : ActionStep} (hs : Electing actions s)
    (hkeeps : ¬ KeepsVoted actions s (i, a)) (h : actionsStep actions s (i, a) = some s') :
    ∃ j s'', actionsStep actions s' (j, .publish) = some s'' ∧
      ¬ Listed s''.config.peers.elems s''.config.publisher := by
  obtain ⟨j, hlost⟩ : ∃ j, ¬ (s.phases j).KeptBy s'.config.peers.elems := by
    by_contra hall
    refine hkeeps fun t ht j _ => ?_
    obtain rfl := Option.some.inj (h.symm.trans ht)
    exact not_not.mp (not_exists.mp hall j)
  cases actionsStep_move h with
  | @work c p hvoted hp hdone =>
    cases hphase : s.phases j with
    | waiting | removing peers | gathering g | done =>
      rw [hphase] at hlost
      exact absurd trivial hlost
    | voted peer =>
      rw [hphase] at hlost
      have hj : j ≠ i := by
        rintro rfl
        exact hvoted peer hphase
      have hphase' : (s.move i c p).phases j = .voted peer :=
        (Function.update_of_ne hj ..).trans hphase
      refine ⟨j, (s.move i c p).move j (c.setPublisher peer) .done, ?_, hlost⟩
      rw [actionsStep, hphase']
      rfl
  -- the other steps leave the list as it is
  | vote hfind => exact absurd (hs.kept j) hlost
  | publish hphase => exact absurd (hs.kept j) hlost

end Preservation

/-- **The publisher of concurrent elections.**  In a run in which no step takes a peer off the
list between the vote that found it and its publication, the publisher is a peer of the list
once all actions have completed.  As soon as a step does, publishing that peer leaves a
publisher that is not listed. -/
theorem publisher_listed {actions : List PeerAction} {c : Config} {as : List (ℕ × ActionStep)}
    {s : ActionsState} (hstart : actions ≠ [] ∨ Listed c.peers.elems c.publisher)
    (hrun : run (actionsStep actions) (.start c) as = some s)
    (hkeeps : Along (actionsStep actions) (KeepsVoted actions) (.start c) as) :
    ((∀ i < actions.length, s.phases i = .done) →
      Listed s.config.peers.elems s.config.publisher) ∧
    ∀ i a s', actionsStep actions s (i, a) = some s' → ¬ KeepsVoted actions s (i, a) →
      ∃ j s'', actionsStep actions s' (j, .publish) = some s'' ∧
        ¬ Listed s''.config.peers.elems s''.config.publisher := by
  have hs : Electing actions s :=
    run_invariant_along (P := Electing actions)
      (fun t a t' ht hG hstep => ht.step hG hstep) (electing_start hstart) hkeeps hrun
  refine ⟨fun hdone => ?_, fun i a s' hstep hlost => publishes_unlisted hs hlost hstep⟩
  rcases hs.published with ⟨i, hi, hne⟩ | hlisted
  · exact absurd (hdone i hi) hne
  · exact hlisted

/-- The election of action `i`, up to the vote, when the peers answer in the order of the
list. -/
def electionSteps (i : ℕ) (answers : List Answer) : List (ℕ × ActionStep) :=
  (gatherActs answers).map (fun act => (i, ActionStep.gather act)) ++
    [(i, ActionStep.find (sortedOrder _ _))]

/-- The peer of that name answers with the given uptime. -/
def answerOf (name : String) (uptime : ℤ) : Answer := ⟨some (peerNamed name), .uptime uptime⟩

/-- Baz fails, and then foo. -/
def bazAndFooFail : List PeerAction :=
  [.failed (some (peerNamed "baz")), .failed (some (peerNamed "foo"))]

/-- Baz's action elects and publishes foo; then foo's action elects and publishes bar. -/
def oneAfterTheOther : List (ℕ × ActionStep) :=
  (0, .edit) :: (0, .edit) :: electionSteps 0 [answerOf "foo" 10, answerOf "bar" 5] ++
    (0, .publish) :: (1, .edit) :: (1, .edit) :: electionSteps 1 [answerOf "bar" 6] ++
    [(1, .publish)]

/-- Baz's action elects foo, and publishes it after foo's action is complete. -/
def overtaken : List (ℕ × ActionStep) :=
  (0, .edit) :: (0, .edit) :: electionSteps 0 [answerOf "foo" 10, answerOf "bar" 5] ++
    (1, .edit) :: (1, .edit) :: electionSteps 1 [answerOf "bar" 6] ++
    [(1, .publish), (0, .publish)]

/-- When the actions run one after the other, bar is the publisher and is listed. -/
theorem publisher_listed_threePeers :
    ∃ s, run (actionsStep bazAndFooFail) (.start threePeers) oneAfterTheOther = some s ∧
      s.config.publisher = some (peerNamed "bar") ∧
      Listed s.config.peers.elems s.config.publisher := by
  have hany : (run (actionsStep bazAndFooFail) (.start threePeers) oneAfterTheOther).any (fun s =>
      s.config.publisher = some (peerNamed "bar") ∧ ∀ i < 2, s.phases i = .done) = true := by
    decide +kernel
  obtain ⟨s, hrun, hs⟩ := Option.any_eq_true _ _ |>.mp hany
  obtain ⟨hpublisher, hdone⟩ := of_decide_eq_true hs
  obtain ⟨hlisted, -⟩ := publisher_listed (Or.inl (by simp [bazAndFooFail])) hrun
    (by decide +kernel)
  exact ⟨s, hrun, hpublisher, hlisted hdone⟩

/-- **An old election overwrites a newer one.**  Baz fails, and its election finds foo.  Before
foo is published foo fails too, is removed, and bar is elected and published.  Then the first
election publishes foo, which is not listed any more. -/
theorem publisher_not_listed :
    ∃ s, run (actionsStep bazAndFooFail) (.start threePeers) overtaken = some s ∧
      (∀ i < 2, s.phases i = .done) ∧
      s.config.publisher = some (peerNamed "foo") ∧
      s.config.peers = some [some (peerNamed "bar")] ∧
      ¬ Listed s.config.peers.elems s.config.publisher := by
  have hany : (run (actionsStep bazAndFooFail) (.start threePeers) overtaken).any (fun s =>
      (∀ i < 2, s.phases i = .done) ∧ s.config.publisher = some (peerNamed "foo") ∧
      s.config.peers = some [some (peerNamed "bar")] ∧
      ¬ Listed s.config.peers.elems s.config.publisher) = true := by
    decide +kernel
  obtain ⟨s, hrun, hs⟩ := Option.any_eq_true _ _ |>.mp hany
  exact ⟨s, hrun, of_decide_eq_true hs⟩

end Border
