/-
# The wait group of an election

The small steps of `gatherUptimes` of `pkg/election/election.go`, while other goroutines edit
the list of peers of the same configuration.  `gatherUptimes` reads the list twice:
`len(e.config.Peers)` is added to the wait group, and then the loop starts one goroutine for
each entry of `e.config.Peers`.

* `gather_alone` : without anything in between, the steps do what `gatherUptimes` does;
* `gather_accounts` : as long as the list has the same length at both reads, `Wait` returns
  once the queries have ended, and the counter is never negative;
* `gather_hangs` : a run in which a peer is removed between the two reads.
-/
import Border.Mutators

namespace Border

open GoJson GoMap Transition

/-! ## The steps of `gatherUptimes` -/

/-- One goroutine of `gatherUptimes`. -/
inductive Query
  /-- In `getUptime`. -/
  | asking (peer : Option Peer)
  /-- `getUptime` returned an error; `RemovePeer` is next. -/
  | pruning (peer : Option Peer)
  /-- `RemovePeer` has scanned the list, and holds the others. -/
  | removing (peers : List (Option Peer))
  /-- `wg.Done` is next. -/
  | finishing
  | ended
  deriving DecidableEq

/-- Where `gatherUptimes` is. -/
inductive GatherPhase
  /-- `wg.Add(len(e.config.Peers))` is next. -/
  | counting
  /-- The loop is about to evaluate `e.config.Peers`. -/
  | ranging
  /-- In the loop; no goroutine was started yet for the peers that are left.  With none left,
  it is in `wg.Wait`. -/
  | starting (rest : List (Option Peer))
  | returned
  deriving DecidableEq

/-- A call of `gatherUptimes`: the counter of its wait group, the number that was added to it,
its goroutines, and `e.uptimes`. -/
structure Gather where
  phase : GatherPhase
  counter : ℤ
  added : ℕ
  queries : List Query
  uptimes : Uptimes
  deriving DecidableEq

/-- The call is about to start. -/
def Gather.start : Gather := ⟨.counting, 0, 0, [], ∅⟩

inductive GatherAct
  | add
  | range
  | go
  | answer (j : ℕ) (reply : Reply)
  | scan (j : ℕ)
  | write (j : ℕ)
  | finish (j : ℕ)
  | wait

/-- Goroutine `j` moves on. -/
def Gather.move (g : Gather) (j : ℕ) (q : Query) : Gather :=
  { g with queries := g.queries.set j q }

/-- A step of the call or of one of its goroutines, on the given configuration. -/
def Gather.step (c : Config) (g : Gather) : GatherAct → Option (Config × Gather)
  | .add =>
    match g.phase with
    | .counting =>
      some (c, { g with
        phase := .ranging
        counter := g.counter + c.peers.elems.length
        added := c.peers.elems.length })
    | _ => none
  | .range =>
    match g.phase with
    | .ranging => some (c, { g with phase := .starting c.peers.elems })
    | _ => none
  | .go =>
    match g.phase with
    | .starting (peer :: rest) =>
      some (c, { g with phase := .starting rest, queries := g.queries ++ [.asking peer] })
    | _ => none
  | .answer j reply =>
    match g.queries[j]? with
    | some (.asking peer) =>
      match Peer.name peer, reply with
      | .ok name, .uptime duration =>
        some (c, { g.move j .finishing with uptimes := g.uptimes.insert name duration })
      | .ok _, .unreachable => some (c, g.move j (.pruning peer))
      | .error _, _ => none
    | _ => none
  | .scan j =>
    match g.queries[j]? with
    | some (.pruning peer) =>
      match removePeer peer c.peers.elems with
      | .ok peers => some (c, g.move j (.removing peers))
      | .error _ => none
    | _ => none
  | .write j =>
    match g.queries[j]? with
    | some (.removing peers) => some ({ c with peers := some peers }, g.move j .finishing)
    | _ => none
  | .finish j =>
    match g.queries[j]? with
    | some .finishing => some (c, { g.move j .ended with counter := g.counter - 1 })
    | _ => none
  | .wait =>
    match g.phase with
    | .starting [] => if g.counter = 0 then some (c, { g with phase := .returned }) else none
    | _ => none

/-- What a step can do. -/
inductive Gather.Move (c : Config) (g : Gather) : GatherAct → Config → Gather → Prop
  | add (hphase : g.phase = .counting) :
      Move c g .add c { g with
        phase := .ranging
        counter := g.counter + c.peers.elems.length
        added := c.peers.elems.length }
  | range (hphase : g.phase = .ranging) :
      Move c g .range c { g with phase := .starting c.peers.elems }
  | go {peer : Option Peer} {rest : List (Option Peer)}
      (hphase : g.phase = .starting (peer :: rest)) :
      Move c g .go c { g with phase := .starting rest, queries := g.queries ++ [.asking peer] }
  | query {act : GatherAct} {j : ℕ} {q q' : Query} (hact : act ≠ .range)
      (hq : g.queries[j]? = some q) (hne : q ≠ .ended) (hne' : q' ≠ .ended) (c' : Config)
      (uptimes : Uptimes) :
      Move c g act c' { g.move j q' with uptimes := uptimes }
  | finish {j : ℕ} (hq : g.queries[j]? = some .finishing) :
      Move c g (.finish j) c { g.move j .ended with counter := g.counter - 1 }
  | wait (hphase : g.phase = .starting []) (hzero : g.counter = 0) :
      Move c g .wait c { g with phase := .returned }

theorem Gather.step_move {c c' : Config} {g g' : Gather} {a : GatherAct}
    (h : g.step c a = some (c', g')) : Gather.Move c g a c' g' := by
  cases a with
  | add =>
    rw [Gather.step] at h
    split at h
    · rename_i hphase
      obtain ⟨rfl, rfl⟩ := Prod.mk.inj (Option.some.inj h)
      exact .add hphase
    · exact absurd h (by simp)
  | range =>
    rw [Gather.step] at h
    split at h
    · rename_i hphase
      obtain ⟨rfl, rfl⟩ := Prod.mk.inj (Option.some.inj h)
      exact .range hphase
    · exact absurd h (by simp)
  | go =>
    rw [Gather.step] at h
    split at h
    · rename_i hphase
      obtain ⟨rfl, rfl⟩ := Prod.mk.inj (Option.some.inj h)
      exact .go hphase
    · exact absurd h (by simp)
  | answer j reply =>
    rw [Gather.step] at h
    split at h
    · rename_i peer hq
      split at h
      · obtain ⟨rfl, rfl⟩ := Prod.mk.inj (Option.some.inj h)
        exact .query (by simp) hq (by simp) (by simp) _ _
      · obtain ⟨rfl, rfl⟩ := Prod.mk.inj (Option.some.inj h)
        exact .query (by simp) hq (by simp) (by simp) _ g.uptimes
      · exact absurd h (by simp)
    · exact absurd h (by simp)
  | scan j =>
    rw [Gather.step] at h
    split at h
    · rename_i peer hq
      split at h
      · obtain ⟨rfl, rfl⟩ := Prod.mk.inj (Option.some.inj h)
        exact .query (by simp) hq (by simp) (by simp) _ g.uptimes
      · exact absurd h (by simp)
    · exact absurd h (by simp)
  | write j =>
    rw [Gather.step] at h
    split at h
    · rename_i peers hq
      obtain ⟨rfl, rfl⟩ := Prod.mk.inj (Option.some.inj h)
      exact .query (by simp) hq (by simp) (by simp) _ g.uptimes
    · exact absurd h (by simp)
  | finish j =>
    rw [Gather.step] at h
    split at h
    · rename_i hq
      obtain ⟨rfl, rfl⟩ := Prod.mk.inj (Option.some.inj h)
      exact .finish hq
    · exact absurd h (by simp)
  | wait =>
    rw [Gather.step] at h
    split at h
    · rename_i hphase
      split_ifs at h with hzero
      obtain ⟨rfl, rfl⟩ := Prod.mk.inj (Option.some.inj h)
      exact .wait hphase hzero
    · exact absurd h (by simp)

theorem Gather.Move.range_inv {c c' : Config} {g g' : Gather} (h : Gather.Move c g .range c' g') :
    g.phase = .ranging ∧ g' = { g with phase := .starting c.peers.elems } := by
  cases h with
  | range hphase => exact ⟨hphase, rfl⟩
  | query hact => exact absurd rfl hact

/-! ## A call alone -/

/-- A step of the call when nothing else runs. -/
def gatherAloneStep (s : Config × Gather) (a : GatherAct) : Option (Config × Gather) :=
  s.2.step s.1 a

/-- Goroutine `j`, from start to end. -/
def Answer.acts (j : ℕ) (a : Answer) : List GatherAct :=
  match a.reply with
  | .uptime duration => [.answer j (.uptime duration), .finish j]
  | .unreachable => [.answer j .unreachable, .scan j, .write j, .finish j]

/-- The goroutines one after the other. -/
def answersActs : ℕ → List Answer → List GatherAct
  | _, [] => []
  | j, a :: answers => a.acts j ++ answersActs (j + 1) answers

/-- A whole call. -/
def gatherActs (answers : List Answer) : List GatherAct :=
  [GatherAct.add, .range] ++ (List.replicate answers.length GatherAct.go ++
    (answersActs 0 answers ++ [.wait]))

/-- One goroutine with nothing in between records its answer. -/
theorem run_acts {c c' : Config} {g : Gather} {j : ℕ} {a : Answer} {uptimes : Uptimes}
    (hq : g.queries[j]? = some (.asking a.peer))
    (h : recordAnswer a c g.uptimes = .ok (c', uptimes)) :
    run gatherAloneStep (c, g) (a.acts j)
      = some (c', { g.move j .ended with counter := g.counter - 1, uptimes := uptimes }) := by
  obtain ⟨hj, hpeer⟩ := List.getElem?_eq_some_iff.mp hq
  obtain ⟨name, hname, h⟩ := bind_ok h
  unfold Answer.acts
  cases hreply : a.reply with
  | uptime duration =>
    rw [hreply] at h
    obtain ⟨rfl, rfl⟩ := Prod.mk.inj (Except.ok.inj h)
    simp [run_cons, gatherAloneStep, Gather.step, hpeer, hname, Gather.move, hj]
  | unreachable =>
    rw [hreply] at h
    obtain ⟨c₁, hremove, heq⟩ := map_ok h
    obtain ⟨rfl, rfl⟩ := Prod.mk.inj heq
    obtain ⟨peers, hpeers, rfl⟩ := map_ok hremove
    simp [run_cons, gatherAloneStep, Gather.step, hpeer, hname, Gather.move, hj, hpeers]

/-- The goroutines after the given ones, one after the other. -/
theorem run_answersActs {answers : List Answer} {c c' : Config} {uptimes uptimes' : Uptimes}
    (before : List Query) (added : ℕ)
    (h : gatherUptimes answers c uptimes = .ok (c', uptimes')) :
    ∃ queries, run gatherAloneStep
        (c, ⟨.starting [], answers.length, added,
          before ++ answers.map (fun a => .asking a.peer), uptimes⟩)
        (answersActs before.length answers)
      = some (c', ⟨.starting [], 0, added, queries, uptimes'⟩) := by
  induction answers generalizing before c uptimes with
  | nil =>
    obtain ⟨rfl, rfl⟩ := Prod.mk.inj (Except.ok.inj h)
    exact ⟨_, rfl⟩
  | cons a answers ih =>
    obtain ⟨⟨c₁, uptimes₁⟩, hrecord, hrest⟩ := bind_ok h
    obtain ⟨queries, hrun⟩ := ih (before ++ [.ended]) hrest
    refine ⟨queries, ?_⟩
    rw [answersActs, run_append (run_acts (by simp) hrecord)]
    rw [List.length_append] at hrun
    simpa [Gather.move] using hrun

/-- Starting the goroutines. -/
theorem run_go (c : Config) (counter : ℤ) (added : ℕ) (uptimes : Uptimes)
    (rest : List (Option Peer)) (queries : List Query) :
    run gatherAloneStep (c, ⟨.starting rest, counter, added, queries, uptimes⟩)
        (List.replicate rest.length .go)
      = some (c, ⟨.starting [], counter, added, queries ++ rest.map .asking, uptimes⟩) := by
  induction rest generalizing queries with
  | nil => simp
  | cons peer rest ih =>
    rw [List.length_cons, List.replicate_succ, run_cons]
    show run gatherAloneStep (c, ⟨.starting rest, counter, added, queries ++ [.asking peer],
      uptimes⟩) _ = _
    rw [ih, List.append_assoc]
    rfl

/-- **A call alone.**  Its steps, with the goroutines one after the other, do what
`gatherUptimes` does. -/
theorem gather_alone {answers : List Answer} {c c' : Config} {uptimes : Uptimes}
    (hpeers : answers.map Answer.peer = c.peers.elems)
    (h : gatherUptimes answers c ∅ = .ok (c', uptimes)) :
    ∃ g, run gatherAloneStep (c, .start) (gatherActs answers) = some (c', g) ∧
      g.phase = .returned ∧ g.uptimes = uptimes := by
  -- the loop starts one goroutine for each answer
  have hlength : answers.length = c.peers.elems.length := by
    rw [← hpeers, List.length_map]
  have hasking : c.peers.elems.map Query.asking = answers.map fun a => .asking a.peer := by
    rw [← hpeers, List.map_map]
    rfl
  have hread : run gatherAloneStep (c, .start) [.add, .range] = some (c,
      ⟨.starting c.peers.elems, c.peers.elems.length, c.peers.elems.length, [], ∅⟩) := by
    simp [run_cons, gatherAloneStep, Gather.step, Gather.start]
  have hgo := run_go c c.peers.elems.length c.peers.elems.length ∅ c.peers.elems []
  obtain ⟨queries, hanswers⟩ :=
    run_answersActs [] c.peers.elems.length h
  rw [hlength, ← hasking, List.length_nil] at hanswers
  refine ⟨⟨.returned, 0, c.peers.elems.length, queries, uptimes⟩, ?_, rfl, rfl⟩
  rw [gatherActs, hlength, run_append hread, run_append hgo, run_append hanswers]
  rfl

/-! ## The wait group -/

/-- The goroutines that have called `wg.Done`. -/
def Gather.endedCount (g : Gather) : ℕ := g.queries.countP (· = .ended)

/-- The length of the list the loop ranges over, once it does: one goroutine for each entry. -/
def Gather.ranged (g : Gather) : Option ℕ :=
  match g.phase with
  | .counting => none
  | .ranging => none
  | .starting rest => some (g.queries.length + rest.length)
  | .returned => some g.queries.length

/-- What every step keeps: the counter says how many of those added have not ended, and no
goroutine is started before the loop. -/
structure Gather.Counted (g : Gather) : Prop where
  counter : g.counter + g.endedCount = g.added
  fresh : g.phase = .counting → g.added = 0
  unstarted : g.ranged = none → g.queries = []

theorem Gather.counted_start : Gather.start.Counted := ⟨rfl, fun _ => rfl, fun _ => rfl⟩

/-- A goroutine that moves on and does not end. -/
theorem Gather.endedCount_move {g : Gather} {j : ℕ} {q q' : Query}
    (hq : g.queries[j]? = some q) (hne : q ≠ .ended) (hne' : q' ≠ .ended) :
    (g.move j q').endedCount = g.endedCount := by
  obtain ⟨hj, rfl⟩ := List.getElem?_eq_some_iff.mp hq
  show (g.queries.set j q').countP _ = _
  rw [List.countP_set hj, if_neg (by simpa using hne), if_neg (by simpa using hne')]
  rfl

/-- A goroutine that ends. -/
theorem Gather.endedCount_finish {g : Gather} {j : ℕ} (hq : g.queries[j]? = some .finishing) :
    (g.move j .ended).endedCount = g.endedCount + 1 := by
  obtain ⟨hj, hq⟩ := List.getElem?_eq_some_iff.mp hq
  show (g.queries.set j .ended).countP _ = _
  rw [List.countP_set hj, hq, if_neg (by simp), if_pos (by simp)]
  rfl

theorem Gather.ranged_move (g : Gather) (j : ℕ) (q : Query) : (g.move j q).ranged = g.ranged := by
  unfold Gather.ranged Gather.move
  rw [List.length_set]

theorem Gather.queries_ne_nil {g : Gather} {j : ℕ} {q : Query} (hq : g.queries[j]? = some q) :
    g.queries ≠ [] := by
  intro hnil
  rw [hnil] at hq
  exact absurd hq (by simp)

/-- Every step keeps the count. -/
theorem Gather.Counted.step {c c' : Config} {g g' : Gather} {a : GatherAct} (hg : g.Counted)
    (h : Gather.Move c g a c' g') : g'.Counted := by
  obtain ⟨hcounter, hfresh, hunstarted⟩ := hg
  cases h with
  | add hphase =>
    have hqueries : g.queries = [] := hunstarted (by rw [Gather.ranged, hphase])
    have hzero := hfresh hphase
    refine ⟨?_, fun h => absurd h (by simp), fun _ => hqueries⟩
    have hended : g.endedCount = 0 := by rw [Gather.endedCount, hqueries, List.countP_nil]
    show g.counter + c.peers.elems.length + (g.endedCount : ℤ) = c.peers.elems.length
    omega
  | range hphase =>
    exact ⟨hcounter, fun h => absurd h (by simp), fun h => absurd h (by simp [Gather.ranged])⟩
  | go hphase =>
    refine ⟨?_, fun h => absurd h (by simp), fun h => absurd h (by simp [Gather.ranged])⟩
    show g.counter + ((g.queries ++ _).countP _ : ℕ) = g.added
    rw [List.countP_append, List.countP_singleton, if_neg (by simp)]
    exact hcounter
  | query hact hq hne hne' c' uptimes =>
    refine ⟨?_, hfresh, fun h => absurd (hunstarted ?_) (Gather.queries_ne_nil hq)⟩
    · show g.counter + (g.move _ _).endedCount = g.added
      rw [Gather.endedCount_move hq hne hne', hcounter]
    · rw [← Gather.ranged_move]
      exact h
  | finish hq =>
    refine ⟨?_, hfresh, fun h => absurd (hunstarted ?_) (Gather.queries_ne_nil hq)⟩
    · show g.counter - 1 + (g.move _ .ended).endedCount = g.added
      rw [Gather.endedCount_finish hq]
      push_cast
      omega
    · rw [← Gather.ranged_move]
      exact h
  | wait hphase hzero =>
    exact ⟨hcounter, fun h => absurd h (by simp), fun h => absurd h (by simp [Gather.ranged])⟩

/-- Once the loop has its list, no step changes how many goroutines there will be. -/
theorem Gather.ranged_step {c c' : Config} {g g' : Gather} {a : GatherAct} {n : ℕ}
    (hn : g.ranged = some n) (h : Gather.Move c g a c' g') :
    g'.ranged = some n ∧ g'.added = g.added := by
  cases h with
  | add hphase | range hphase =>
    rw [Gather.ranged, hphase] at hn
    exact absurd hn (by simp)
  | go hphase =>
    rw [Gather.ranged, hphase] at hn
    refine ⟨?_, rfl⟩
    rw [← hn]
    simp only [Gather.ranged, List.length_append, List.length_cons, List.length_nil]
    congr 1
    omega
  | @query act j q q' hact hq hne hne' c' uptimes =>
    rw [← hn]
    exact ⟨Gather.ranged_move g j q', rfl⟩
  | @finish j hq =>
    rw [← hn]
    exact ⟨Gather.ranged_move g j .ended, rfl⟩
  | wait hphase hzero =>
    rw [Gather.ranged, hphase] at hn
    exact ⟨hn, rfl⟩

/-- The loop gets its list in one step. -/
theorem Gather.ranged_first {c c' : Config} {g g' : Gather} {a : GatherAct} (hg : g.Counted)
    (hnone : g.ranged = none) (h : Gather.Move c g a c' g') :
    (a = .range ∧ g'.ranged = some c.peers.elems.length ∧ g'.added = g.added) ∨
      g'.ranged = none := by
  have hqueries := hg.unstarted hnone
  cases h with
  | add hphase => exact Or.inr rfl
  | range hphase =>
    refine Or.inl ⟨rfl, ?_, rfl⟩
    show some (g.queries.length + c.peers.elems.length) = _
    rw [hqueries, List.length_nil, Nat.zero_add]
  | go hphase | wait hphase hzero =>
    rw [Gather.ranged, hphase] at hnone
    exact absurd hnone (by simp)
  | query hact hq hne hne' c' uptimes => exact absurd hqueries (Gather.queries_ne_nil hq)
  | finish hq => exact absurd hqueries (Gather.queries_ne_nil hq)

/-! ## Other goroutines on the same configuration -/

/-- A call of `gatherUptimes`, and the calls of other goroutines. -/
structure GatherState where
  mutators : MutatorState
  gather : Gather

def GatherState.start (c : Config) : GatherState := ⟨.start c, .start⟩

inductive GatherAction
  /-- The next section of call `i` of the other goroutines. -/
  | call (i : ℕ)
  | gather (act : GatherAct)

/-- A step of the whole.  A negative counter is a panic, which ends the process. -/
def electionStep (calls : List Mutation) (s : GatherState) : GatherAction → Option GatherState
  | .call i =>
    if s.gather.counter < 0 then none
    else (mutatorStep calls s.mutators i).map fun m => { s with mutators := m }
  | .gather act =>
    if s.gather.counter < 0 then none
    else (s.gather.step s.mutators.config act).map fun r =>
      ⟨{ s.mutators with config := r.1 }, r.2⟩

/-- A step moves the call, or leaves it. -/
theorem electionStep_cases {calls : List Mutation} {s s' : GatherState} {a : GatherAction}
    (h : electionStep calls s a = some s') :
    (∃ i, a = .call i ∧ s'.gather = s.gather) ∨
    (∃ act, a = .gather act ∧
      Gather.Move s.mutators.config s.gather act s'.mutators.config s'.gather) := by
  cases a with
  | call i =>
    rw [electionStep] at h
    split_ifs at h
    obtain ⟨m, -, rfl⟩ := Option.map_eq_some_iff.mp h
    exact Or.inl ⟨i, rfl, rfl⟩
  | gather act =>
    rw [electionStep] at h
    split_ifs at h
    obtain ⟨⟨c', g'⟩, hstep, rfl⟩ := Option.map_eq_some_iff.mp h
    exact Or.inr ⟨act, rfl, Gather.step_move hstep⟩

/-- When the loop evaluates the list, it is as long as it was when its length was added to the
wait group. -/
def SameLength (s : GatherState) : GatherAction → Prop
  | .gather .range => s.mutators.config.peers.elems.length = s.gather.added
  | _ => True

instance (s : GatherState) : ∀ a, Decidable (SameLength s a)
  | .gather .range =>
    inferInstanceAs (Decidable (s.mutators.config.peers.elems.length = s.gather.added))
  | .gather .add | .gather .go | .gather (.answer _ _) | .gather (.scan _) | .gather (.write _)
  | .gather (.finish _) | .gather .wait | .call _ => isTrue trivial

/-- Every goroutine of the loop has been started. -/
def Gather.Looped (g : Gather) : Prop := g.phase = .starting [] ∨ g.phase = .returned

/-- Every goroutine that was started has called `wg.Done`. -/
def Gather.AllEnded (g : Gather) : Prop := ∀ q ∈ g.queries, q = .ended

instance (g : Gather) : Decidable g.AllEnded :=
  inferInstanceAs (Decidable (∀ q ∈ g.queries, q = .ended))

theorem Gather.Looped.ranged {g : Gather} (h : g.Looped) :
    g.ranged = some g.queries.length := by
  unfold Gather.ranged
  rcases h with h | h
  · rw [h]
    rfl
  · rw [h]

theorem Gather.AllEnded.endedCount {g : Gather} (h : g.AllEnded) :
    g.endedCount = g.queries.length := by
  rw [Gather.endedCount, List.countP_eq_length]
  exact fun q hq => decide_eq_true (h q hq)

/-- The number of goroutines is the number that was added. -/
structure Gather.Accounted (g : Gather) : Prop where
  counted : g.Counted
  matched : ∀ n, g.ranged = some n → n = g.added

theorem Gather.Accounted.nonneg {g : Gather} (hg : g.Accounted) : 0 ≤ g.counter := by
  have hcounter := hg.counted.counter
  have hle : g.endedCount ≤ g.queries.length := List.countP_le_length
  cases hranged : g.ranged with
  | none =>
    rw [hg.counted.unstarted hranged, List.length_nil] at hle
    omega
  | some n =>
    have hn := hg.matched n hranged
    have hstarted : g.queries.length ≤ n := by
      unfold Gather.ranged at hranged
      split at hranged
      · exact absurd hranged (by simp)
      · exact absurd hranged (by simp)
      · rw [← Option.some.inj hranged]
        omega
      · rw [← Option.some.inj hranged]
    omega

/-- A step of the call whose list is as long as what was added. -/
theorem accounted_step {calls : List Mutation} {s s' : GatherState} {a : GatherAction}
    (hs : s.gather.Accounted) (hlen : SameLength s a) (h : electionStep calls s a = some s') :
    s'.gather.Accounted := by
  rcases electionStep_cases h with ⟨i, rfl, hsame⟩ | ⟨act, rfl, hmove⟩
  · rw [hsame]
    exact hs
  · refine ⟨hs.counted.step hmove, fun n hn => ?_⟩
    cases hranged : s.gather.ranged with
    | some m =>
      obtain ⟨hranged', hadded⟩ := Gather.ranged_step hranged hmove
      rw [hn] at hranged'
      rw [hadded, Option.some.inj hranged', hs.matched m hranged]
    | none =>
      rcases Gather.ranged_first hs.counted hranged hmove with ⟨rfl, hfirst, hadded⟩ | hnone
      · rw [hn] at hfirst
        rw [hadded, Option.some.inj hfirst]
        exact hlen
      · rw [hn] at hnone
        exact absurd hnone (by simp)

/-- The goroutines of the loop and the number that was added, from the loop on. -/
theorem ranged_run {calls : List Mutation} {s t : GatherState} {as : List GatherAction} {n m : ℕ}
    (hs : s.gather.Counted ∧ s.gather.ranged = some n ∧ s.gather.added = m)
    (hrun : run (electionStep calls) s as = some t) :
    t.gather.Counted ∧ t.gather.ranged = some n ∧ t.gather.added = m := by
  refine run_invariant (P := fun u => u.gather.Counted ∧ u.gather.ranged = some n ∧
    u.gather.added = m) (fun u a u' hu hstep => ?_) hs hrun
  obtain ⟨hcounted, hranged, hadded⟩ := hu
  rcases electionStep_cases hstep with ⟨i, -, hsame⟩ | ⟨act, -, hmove⟩
  · rw [hsame]
    exact ⟨hcounted, hranged, hadded⟩
  · obtain ⟨hranged', hadded'⟩ := Gather.ranged_step hranged hmove
    exact ⟨hcounted.step hmove, hranged', hadded'.trans hadded⟩

/-- **The wait group of an election.**  In a run in which the list is as long when the loop
evaluates it as it was when its length was added, the counter is never negative, the loop starts
as many goroutines as were added, and once these have ended `Wait` returns.  When the list has
another length, the numbers differ for good: once all goroutines have ended, the counter is
negative, which is a panic, or positive, and `Wait` never returns. -/
theorem gather_accounts {calls : List Mutation} {c : Config} {as : List GatherAction}
    {s : GatherState} (hrun : run (electionStep calls) (.start c) as = some s)
    (hlen : Along (electionStep calls) SameLength (.start c) as) :
    (0 ≤ s.gather.counter ∧
      (s.gather.Looped → s.gather.queries.length = s.gather.added) ∧
      (s.gather.phase = .starting [] → s.gather.AllEnded →
        ∃ s', electionStep calls s (.gather .wait) = some s' ∧ s'.gather.phase = .returned)) ∧
    ∀ s', electionStep calls s (.gather .range) = some s' → ¬ SameLength s (.gather .range) →
      ∀ bs t, run (electionStep calls) s' bs = some t → t.gather.Looped →
        t.gather.queries.length ≠ t.gather.added ∧
        (t.gather.AllEnded → t.gather.counter ≠ 0) := by
  have hs : s.gather.Accounted :=
    run_invariant_along (P := fun s => s.gather.Accounted)
      (fun t a t' ht hG hstep => accounted_step ht hG hstep)
      ⟨Gather.counted_start, fun n hn => absurd hn (by simp [Gather.ranged, GatherState.start,
        Gather.start])⟩ hlen hrun
  refine ⟨⟨hs.nonneg, fun hlooped => hs.matched _ hlooped.ranged, fun hphase hended => ?_⟩,
    fun s' hstep hne bs t ht hlooped => ?_⟩
  · have hzero : s.gather.counter = 0 := by
      have hcounter := hs.counted.counter
      rw [hended.endedCount, hs.matched _ (Gather.Looped.ranged (Or.inl hphase))] at hcounter
      omega
    refine ⟨⟨s.mutators, { s.gather with phase := .returned }⟩, ?_, rfl⟩
    rw [electionStep, if_neg (by omega)]
    simp [Gather.step, hphase, hzero]
  · obtain ⟨i, hact, -⟩ | ⟨act, hact, hmove⟩ := electionStep_cases hstep
    · exact absurd hact (by simp)
    obtain rfl := GatherAction.gather.inj hact
    obtain ⟨hphase, hgather⟩ := hmove.range_inv
    -- from here on the loop has as many goroutines as the list is long
    have hqueries := hs.counted.unstarted (by rw [Gather.ranged, hphase])
    have hranged : s'.gather.ranged = some s.mutators.config.peers.elems.length := by
      rw [hgather]
      show some (s.gather.queries.length + _) = _
      rw [hqueries, List.length_nil, Nat.zero_add]
    have hadded : s'.gather.added = s.gather.added := by rw [hgather]
    obtain ⟨hcounted, hranged', hadded'⟩ :=
      ranged_run ⟨hs.counted.step hmove, hranged, hadded⟩ ht
    have hlength : t.gather.queries.length = s.mutators.config.peers.elems.length :=
      Option.some.inj (hlooped.ranged.symm.trans hranged')
    have hdiffer : t.gather.queries.length ≠ t.gather.added := by
      rw [hlength, hadded']
      exact hne
    refine ⟨hdiffer, fun hended hzero => hdiffer ?_⟩
    have hcounter := hcounted.counter
    rw [hended.endedCount, hzero] at hcounter
    omega

/-- Foo and bar are asked, and bar, which cannot be reached, is removed meanwhile by its health
check: the length and the list are read before. -/
theorem gather_accounts_twoPeers :
    ∃ s, run (electionStep [.removePeer (some (peerNamed "bar"))]) (.start twoPeers)
        [.gather .add, .call 0, .gather .range, .call 0, .gather .go, .gather .go,
          .gather (.answer 1 .unreachable), .gather (.scan 1), .gather (.write 1),
          .gather (.answer 0 (.uptime 10)), .gather (.finish 0), .gather (.finish 1)] = some s ∧
      s.gather.queries.length = 2 ∧
      ∃ s', electionStep [.removePeer (some (peerNamed "bar"))] s (.gather .wait) = some s' ∧
        s'.gather.phase = .returned := by
  have hany : (run (electionStep [.removePeer (some (peerNamed "bar"))]) (.start twoPeers)
        [.gather .add, .call 0, .gather .range, .call 0, .gather .go, .gather .go,
          .gather (.answer 1 .unreachable), .gather (.scan 1), .gather (.write 1),
          .gather (.answer 0 (.uptime 10)), .gather (.finish 0), .gather (.finish 1)]).any (fun s =>
      s.gather.queries.length = 2 ∧ s.gather.phase = .starting [] ∧ s.gather.AllEnded) = true := by
    decide +kernel
  obtain ⟨s, hrun, hs⟩ := Option.any_eq_true _ _ |>.mp hany
  obtain ⟨hlength, hphase, hended⟩ := of_decide_eq_true hs
  obtain ⟨⟨-, -, hwait⟩, -⟩ := gather_accounts hrun (by decide +kernel)
  exact ⟨s, hrun, hlength, hwait hphase hended⟩

/-- **An election that never ends.**  Bar's health check fails while an election is about to
start: two peers are counted, bar is removed, and one goroutine is started.  It ends, nothing
else runs, and `Wait` does not return. -/
theorem gather_hangs :
    ∃ s, run (electionStep [.removePeer (some (peerNamed "bar"))]) (.start twoPeers)
        [.gather .add, .call 0, .call 0, .gather .range, .gather .go,
          .gather (.answer 0 (.uptime 10)), .gather (.finish 0)] = some s ∧
      s.gather.added = 2 ∧ s.gather.queries = [.ended] ∧
      s.mutators.progress 0 = .done ∧ s.gather.counter = 1 ∧
      electionStep [.removePeer (some (peerNamed "bar"))] s (.gather .wait) = none := by
  have hany : (run (electionStep [.removePeer (some (peerNamed "bar"))]) (.start twoPeers)
        [.gather .add, .call 0, .call 0, .gather .range, .gather .go,
          .gather (.answer 0 (.uptime 10)), .gather (.finish 0)]).any (fun s =>
      s.gather.added = 2 ∧ s.gather.queries = [.ended] ∧ s.mutators.progress 0 = .done ∧
      s.gather.counter = 1 ∧
      (electionStep [.removePeer (some (peerNamed "bar"))] s (.gather .wait)).isNone) = true := by
    decide +kernel
  obtain ⟨s, hrun, hs⟩ := Option.any_eq_true _ _ |>.mp hany
  obtain ⟨hadded, hqueries, hdone, hcounter, hwait⟩ := of_decide_eq_true hs
  exact ⟨s, hrun, hadded, hqueries, hdone, hcounter, Option.isNone_iff_eq_none.mp hwait⟩

end Border
