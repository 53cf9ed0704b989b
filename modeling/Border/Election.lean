/-
# Elections

Model of `pkg/election/election.go` and of `holdElection`: a node asks every peer of its
list for its uptime, drops the peers it cannot reach, and takes the peer with the largest
uptime as the publisher.  No votes are exchanged.

The goroutines of `gatherUptimes` finish in any order, so an election is given the list of
their answers in the order in which they came; the loop over the uptimes is a range loop
over a map.

* `gatherUptimes_peers` : what an election does to the list of peers;
* `vote_longest_running` : whom a vote elects, when it fails and which peers it leaves;
* `vote_iff_ahead` : which peer is elected when every peer answers, whatever the orders;
* `votes_agree_iff` : when two nodes that ask the same peers elect the same one.  Each
  uptime is measured when its own answer is made, so a peer can make up for a later start
  by a later answer.
-/
import Border.Config

namespace Border

open GoJson GoMap

/-! ## The list of peers -/

/-- `Config.RemovePeer` on the list of peers: every one of that name goes. -/
def removePeer (peer : Option Peer) : List (Option Peer) → Except Failure (List (Option Peer))
  | [] => .ok []
  | origPeer :: rest => do
    let name ← Peer.name peer
    let origName ← Peer.name origPeer
    let rest' ← removePeer peer rest
    .ok (if name ≠ origName then origPeer :: rest' else rest')

/-- `Config.RemovePeer`. -/
def Config.removePeer (c : Config) (peer : Option Peer) : Except Failure Config :=
  (Border.removePeer peer c.peers.elems).map fun peers => { c with peers := some peers }

/-- `Config.AddPeer`: whether the peer is listed already is not looked at. -/
def Config.addPeer (c : Config) (peer : Option Peer) : Config :=
  { c with peers := some (c.peers.elems ++ [peer]) }

/-- `Config.SetPublisher`. -/
def Config.setPublisher (c : Config) (publisher : Option Peer) : Config :=
  { c with publisher := publisher }

/-- A peer with a key, so that it has a name. -/
def Named (peer : Option Peer) : Prop := ∃ name, Peer.name peer = .ok name

instance : ∀ peer, Decidable (Named peer)
  | none => isFalse fun ⟨_, h⟩ => absurd h (by simp [Peer.name])
  | some ⟨_, _, none⟩ => isFalse fun ⟨_, h⟩ => absurd h (by simp [Peer.name])
  | some ⟨_, _, some key⟩ => isTrue ⟨key.keyID, rfl⟩

/-- No two peers of the list share a name. -/
structure DistinctNames (peers : List (Option Peer)) : Prop where
  named : ∀ p ∈ peers, Named p
  nodup : (peers.map Peer.name).Nodup

theorem DistinctNames.inj {peers : List (Option Peer)} (hd : DistinctNames peers)
    {p q : Option Peer} (hp : p ∈ peers) (hq : q ∈ peers) (h : Peer.name p = Peer.name q) :
    p = q :=
  List.inj_on_of_nodup_map hd.nodup hp hq h

/-- Among peers with names of their own, removing one by name removes that one. -/
theorem removePeer_eq {configured : List (Option Peer)} (hd : DistinctNames configured)
    {p : Option Peer} (hp : p ∈ configured) {peers : List (Option Peer)}
    (hsub : peers ⊆ configured) : removePeer p peers = .ok (peers.filter (· ≠ p)) := by
  obtain ⟨name, hname⟩ := hd.named p hp
  induction peers with
  | nil => rfl
  | cons q peers ih =>
    have hq : q ∈ configured := hsub List.mem_cons_self
    obtain ⟨qname, hqname⟩ := hd.named q hq
    have hiff : name ≠ qname ↔ q ≠ p := by
      constructor
      · rintro hne rfl
        exact hne (Except.ok.inj (hname.symm.trans hqname))
      · rintro hne rfl
        exact hne (hd.inj hq hp (hqname.trans hname.symm))
    rw [removePeer, hname, hqname, ih fun r hr => hsub (List.mem_cons_of_mem _ hr)]
    show Except.ok (if name ≠ qname then _ else _) = _
    by_cases hne : q = p
    · rw [if_neg fun h => hiff.mp h hne, List.filter_cons_of_neg (by simpa using hne)]
    · rw [if_pos (hiff.mpr hne), List.filter_cons_of_pos (by simpa using hne)]

/-- The peer that is found is listed and has the name that was asked for. -/
theorem findPeer_ok {name : String} {peers : List (Option Peer)} {p : Option Peer}
    (h : findPeer name peers = .ok p) : p ∈ peers ∧ Peer.name p = .ok name := by
  induction peers with
  | nil => exact absurd h (by simp [findPeer])
  | cons q peers ih =>
    rw [findPeer] at h
    cases hq : Peer.name q with
    | error e =>
      rw [hq] at h
      exact absurd h (by simp)
    | ok n =>
      simp only [hq] at h
      by_cases hn : n = name
      · rw [if_pos hn] at h
        rw [← Except.ok.inj h, hq, hn]
        exact ⟨List.mem_cons_self, rfl⟩
      · rw [if_neg hn] at h
        exact ⟨List.mem_cons_of_mem _ (ih h).1, (ih h).2⟩

/-- A name that is listed is found, when every peer has one. -/
theorem findPeer_of_mem {name : String} {peers : List (Option Peer)}
    (hnamed : ∀ p ∈ peers, Named p) {p : Option Peer} (hp : p ∈ peers)
    (hname : Peer.name p = .ok name) : ∃ q, findPeer name peers = .ok q := by
  induction peers with
  | nil => exact absurd hp List.not_mem_nil
  | cons q peers ih =>
    obtain ⟨qname, hqname⟩ := hnamed q List.mem_cons_self
    rw [findPeer, hqname]
    by_cases hn : qname = name
    · exact ⟨q, if_pos hn⟩
    · have hp' : p ∈ peers := by
        rcases List.mem_cons.mp hp with rfl | hp'
        · exact absurd (Except.ok.inj (hqname.symm.trans hname)) hn
        · exact hp'
      simp only [if_neg hn]
      exact ih (fun r hr => hnamed r (List.mem_cons_of_mem _ hr)) hp'

/-! ## The vote -/

/-- What `getUptime` came back with. -/
inductive Reply
  | uptime (duration : ℤ)
  | unreachable
  deriving DecidableEq, Repr

/-- The end of one goroutine of `gatherUptimes`. -/
structure Answer where
  peer : Option Peer
  reply : Reply
  deriving DecidableEq

/-- `Election.uptimes`. -/
abbrev Uptimes := Finmap (fun _ : String => ℤ)

/-- One goroutine of `gatherUptimes`, from the answer on. -/
def recordAnswer (a : Answer) (c : Config) (uptimes : Uptimes) :
    Except Failure (Config × Uptimes) := do
  let name ← Peer.name a.peer
  match a.reply with
  | .uptime duration => .ok (c, uptimes.insert name duration)
  | .unreachable => (c.removePeer a.peer).map fun c' => (c', uptimes)

/-- `gatherUptimes`, over the answers in the order in which they come. -/
def gatherUptimes : List Answer → Config → Uptimes → Except Failure (Config × Uptimes)
  | [], c, uptimes => .ok (c, uptimes)
  | a :: answers, c, uptimes => do
    let (c', uptimes') ← recordAnswer a c uptimes
    gatherUptimes answers c' uptimes'

/-- The name `Vote` looks for: the loop starts with no name and no uptime. -/
def oldestPeer (order : RangeOrder String ℤ) (uptimes : Uptimes) : String :=
  (pickMax uptimes (order.keys uptimes) ("", 0)).1

/-- `Election.Vote`, and the configuration it leaves. -/
def vote (order : RangeOrder String ℤ) (answers : List Answer) (c : Config) :
    Except Failure (Option Peer) × Config :=
  match gatherUptimes answers c ∅ with
  | .error e => (.error e, c)
  | .ok (c', uptimes) => (findPeer (oldestPeer order uptimes) c'.peers.elems, c')

/-- `Server.holdElection`, and the configuration it leaves. -/
def holdElection (order : RangeOrder String ℤ) (answers : List Answer) (c : Config) :
    Except Failure Unit × Config :=
  match vote order answers c with
  | (.error e, c') => (.error e, c')
  | (.ok peer, c') => (.ok (), c'.setPublisher peer)

/-! ## What an election does to the list -/

/-- The query to the peer failed. -/
def Unreachable (answers : List Answer) (p : Option Peer) : Prop :=
  ∃ a ∈ answers, a.peer = p ∧ a.reply = .unreachable

instance (answers : List Answer) (p : Option Peer) : Decidable (Unreachable answers p) :=
  inferInstanceAs (Decidable (∃ a ∈ answers, a.peer = p ∧ a.reply = .unreachable))

theorem unreachable_cons {a : Answer} {answers : List Answer} {p : Option Peer} :
    Unreachable (a :: answers) p ↔
      (a.peer = p ∧ a.reply = .unreachable) ∨ Unreachable answers p := by
  simp [Unreachable]

/-- **The election drops the peers that could not be reached, and no other.** -/
theorem gatherUptimes_peers {configured : List (Option Peer)} (hd : DistinctNames configured)
    {answers : List Answer} (hanswers : ∀ a ∈ answers, a.peer ∈ configured) {c : Config}
    (hsub : c.peers.elems ⊆ configured) (uptimes : Uptimes) :
    ∃ c' uptimes', gatherUptimes answers c uptimes = .ok (c', uptimes') ∧
      c'.peers.elems = c.peers.elems.filter (fun p => ¬ Unreachable answers p) := by
  induction answers generalizing c uptimes with
  | nil =>
    refine ⟨c, uptimes, rfl, ?_⟩
    rw [List.filter_eq_self.mpr]
    intro p _
    simp [Unreachable]
  | cons a answers ih =>
    have ha : a.peer ∈ configured := hanswers a List.mem_cons_self
    have hrest : ∀ a ∈ answers, a.peer ∈ configured := fun b hb =>
      hanswers b (List.mem_cons_of_mem _ hb)
    obtain ⟨name, hname⟩ := hd.named _ ha
    cases hreply : a.reply with
    | uptime duration =>
      have hrecord : recordAnswer a c uptimes = .ok (c, uptimes.insert name duration) := by
        rw [recordAnswer, hname, hreply]
        rfl
      obtain ⟨c', uptimes', hgather, hpeers⟩ := ih hrest hsub (uptimes.insert name duration)
      refine ⟨c', uptimes', ?_, ?_⟩
      · rw [gatherUptimes, hrecord]
        exact hgather
      · rw [hpeers]
        apply List.filter_congr
        intro p _
        rw [decide_eq_decide, unreachable_cons, hreply]
        simp
    | unreachable =>
      have hremove := removePeer_eq hd ha hsub
      have hrecord : recordAnswer a c uptimes
          = .ok ({ c with peers := some (c.peers.elems.filter (· ≠ a.peer)) }, uptimes) := by
        rw [recordAnswer, hname, hreply]
        show (c.removePeer a.peer).map _ = _
        rw [Config.removePeer, hremove]
        rfl
      have hsub' : c.peers.elems.filter (· ≠ a.peer) ⊆ configured :=
        fun p hp => hsub (List.mem_of_mem_filter hp)
      obtain ⟨c', uptimes', hgather, hpeers⟩ :=
        ih (c := { c with peers := some (c.peers.elems.filter (· ≠ a.peer)) }) hrest hsub' uptimes
      refine ⟨c', uptimes', ?_, ?_⟩
      · rw [gatherUptimes, hrecord]
        exact hgather
      · rw [hpeers]
        show List.filter _ (c.peers.elems.filter _) = _
        rw [List.filter_filter]
        apply List.filter_congr
        intro p _
        rw [← Bool.decide_and, decide_eq_decide, unreachable_cons, hreply]
        constructor
        · rintro ⟨hnot, hne⟩ (⟨heq, -⟩ | hun)
          · exact hne heq.symm
          · exact hnot hun
        · intro hnot
          exact ⟨fun hun => hnot (Or.inr hun), fun heq => hnot (Or.inl ⟨heq.symm, rfl⟩)⟩

/-- What is left of a list was in it. -/
theorem mem_of_removePeer {peer p : Option Peer} {peers peers' : List (Option Peer)}
    (h : removePeer peer peers = .ok peers') (hp : p ∈ peers') : p ∈ peers := by
  induction peers generalizing peers' with
  | nil =>
    obtain rfl := Except.ok.inj h
    exact hp
  | cons q rest ih =>
    obtain ⟨name, -, h⟩ := bind_ok h
    obtain ⟨origName, -, h⟩ := bind_ok h
    obtain ⟨rest', hrest, h⟩ := bind_ok h
    rw [← Except.ok.inj h] at hp
    split_ifs at hp
    · rcases List.mem_cons.mp hp with rfl | hp
      · exact List.mem_cons_self
      · exact List.mem_cons_of_mem _ (ih hrest hp)
    · exact List.mem_cons_of_mem _ (ih hrest hp)

/-- What one goroutine can do: enter the uptime under the name of its peer, or edit the
list of peers. -/
theorem recordAnswer_cases {a : Answer} {c c' : Config} {uptimes uptimes' : Uptimes}
    (h : recordAnswer a c uptimes = .ok (c', uptimes')) :
    ∃ name, Peer.name a.peer = .ok name ∧
      ((∃ duration, a.reply = .uptime duration ∧ c' = c ∧
          uptimes' = uptimes.insert name duration) ∨
        (a.reply = .unreachable ∧ uptimes' = uptimes ∧ ∃ peers, c' = { c with peers := peers } ∧
          ∀ p ∈ peers.elems, p ∈ c.peers.elems)) := by
  obtain ⟨name, hname, hreply⟩ := bind_ok h
  refine ⟨name, hname, ?_⟩
  split at hreply
  · rename_i duration hduration
    obtain ⟨rfl, rfl⟩ := Prod.mk.inj (Except.ok.inj hreply)
    exact Or.inl ⟨duration, hduration, rfl, rfl⟩
  · rename_i hunreachable
    obtain ⟨c₁, hremove, heq⟩ := map_ok hreply
    obtain ⟨rfl, rfl⟩ := Prod.mk.inj heq
    obtain ⟨remaining, hremaining, rfl⟩ := map_ok hremove
    exact Or.inr ⟨hunreachable, rfl, _, rfl, fun p hp => mem_of_removePeer hremaining hp⟩

/-- An election is about the peers and the publisher only. -/
theorem gatherUptimes_frame {answers : List Answer} {c c' : Config} {uptimes uptimes' : Uptimes}
    (h : gatherUptimes answers c uptimes = .ok (c', uptimes')) :
    ∃ peers, c' = { c with peers := peers } ∧ ∀ p ∈ peers.elems, p ∈ c.peers.elems := by
  induction answers generalizing c uptimes with
  | nil =>
    obtain ⟨rfl, -⟩ := Prod.mk.inj (Except.ok.inj h)
    exact ⟨c.peers, rfl, fun _ hp => hp⟩
  | cons a answers ih =>
    obtain ⟨⟨c₁, uptimes₁⟩, hrecord, hrest⟩ := bind_ok h
    obtain ⟨peers, rfl, hpeers⟩ := ih hrest
    obtain ⟨name, -, ⟨duration, -, rfl, -⟩ | ⟨-, -, remaining, rfl, hremaining⟩⟩ :=
      recordAnswer_cases hrecord
    · exact ⟨peers, rfl, hpeers⟩
    · exact ⟨peers, rfl, fun p hp => hremaining p (hpeers p hp)⟩

theorem holdElection_frame (order : RangeOrder String ℤ) (answers : List Answer) (c : Config) :
    ∃ peers publisher, (holdElection order answers c).2
        = { c with peers := peers, publisher := publisher } ∧
      ∀ p ∈ peers.elems, p ∈ c.peers.elems := by
  unfold holdElection vote
  cases hgather : gatherUptimes answers c ∅ with
  | error e => exact ⟨c.peers, c.publisher, rfl, fun _ hp => hp⟩
  | ok r =>
    obtain ⟨c', uptimes⟩ := r
    obtain ⟨peers, rfl, hpeers⟩ := gatherUptimes_frame hgather
    dsimp only
    cases findPeer (oldestPeer order uptimes) peers.elems with
    | error e => exact ⟨peers, c.publisher, rfl, hpeers⟩
    | ok p => exact ⟨peers, p, rfl, hpeers⟩

/-! ## The peer that is elected -/

/-- Every peer of the list is asked once, and the durations that come back are positive. -/
structure Polled (peers : List (Option Peer)) (answers : List Answer) : Prop where
  perm : (answers.map Answer.peer).Perm peers
  positive : ∀ a ∈ answers, ∀ duration, a.reply = .uptime duration → 0 < duration

/-- The query to the peer succeeded. -/
def Answered (answers : List Answer) (p : Option Peer) : Prop :=
  ∃ a ∈ answers, a.peer = p ∧ a.reply ≠ .unreachable

instance (answers : List Answer) (p : Option Peer) : Decidable (Answered answers p) :=
  inferInstanceAs (Decidable (∃ a ∈ answers, a.peer = p ∧ a.reply ≠ .unreachable))

theorem Reply.eq_uptime {reply : Reply} (h : reply ≠ .unreachable) :
    ∃ duration, reply = .uptime duration := by
  cases reply with
  | uptime duration => exact ⟨duration, rfl⟩
  | unreachable => exact absurd rfl h

theorem DistinctNames.peers_nodup {peers : List (Option Peer)} (hd : DistinctNames peers) :
    peers.Nodup :=
  List.Nodup.of_map _ hd.nodup

section Polled

variable {peers : List (Option Peer)} {answers : List Answer}

theorem Polled.mem_peers (hp : Polled peers answers) {a : Answer} (ha : a ∈ answers) :
    a.peer ∈ peers :=
  hp.perm.mem_iff.mp (List.mem_map_of_mem ha)

/-- Each peer gives one answer. -/
theorem Polled.inj (hp : Polled peers answers) (hd : DistinctNames peers) {a b : Answer}
    (ha : a ∈ answers) (hb : b ∈ answers) (h : a.peer = b.peer) : a = b :=
  List.inj_on_of_nodup_map (hp.perm.nodup_iff.mpr hd.peers_nodup) ha hb h

/-- A peer answers or is not reached. -/
theorem Polled.answered_iff (hp : Polled peers answers) (hd : DistinctNames peers)
    {p : Option Peer} (hmem : p ∈ peers) : Answered answers p ↔ ¬ Unreachable answers p := by
  constructor
  · rintro ⟨a, ha, rfl, hreply⟩ ⟨b, hb, hpeer, hunreachable⟩
    rw [hp.inj hd hb ha hpeer] at hunreachable
    exact hreply hunreachable
  · intro hnot
    obtain ⟨a, ha, rfl⟩ := List.mem_map.mp (hp.perm.mem_iff.mpr hmem)
    exact ⟨a, ha, rfl, fun hunreachable => hnot ⟨a, ha, rfl, hunreachable⟩⟩

end Polled

/-- The uptimes of names that no answer is about are left alone. -/
theorem gatherUptimes_lookup_of_ne {answers : List Answer} {c c' : Config}
    {uptimes uptimes' : Uptimes} (h : gatherUptimes answers c uptimes = .ok (c', uptimes'))
    {name : String} (hne : ∀ a ∈ answers, Peer.name a.peer ≠ .ok name) :
    uptimes'.lookup name = uptimes.lookup name := by
  induction answers generalizing c uptimes with
  | nil =>
    obtain ⟨-, rfl⟩ := Prod.mk.inj (Except.ok.inj h)
    rfl
  | cons a answers ih =>
    obtain ⟨⟨c₁, uptimes₁⟩, hrecord, hrest⟩ := bind_ok h
    rw [ih hrest fun b hb => hne b (List.mem_cons_of_mem _ hb)]
    obtain ⟨other, hother, ⟨duration, -, -, rfl⟩ | ⟨-, rfl, -⟩⟩ := recordAnswer_cases hrecord
    · apply Finmap.lookup_insert_of_ne
      rintro rfl
      exact hne a List.mem_cons_self hother
    · rfl

/-- An uptime in the map was there before or is an answer. -/
theorem exists_answer_of_lookup {answers : List Answer} {c c' : Config}
    {uptimes uptimes' : Uptimes} (h : gatherUptimes answers c uptimes = .ok (c', uptimes'))
    {name : String} {duration : ℤ} (hlookup : uptimes'.lookup name = some duration) :
    uptimes.lookup name = some duration ∨
      ∃ a ∈ answers, Peer.name a.peer = .ok name ∧ a.reply = .uptime duration := by
  induction answers generalizing c uptimes with
  | nil =>
    obtain ⟨-, rfl⟩ := Prod.mk.inj (Except.ok.inj h)
    exact Or.inl hlookup
  | cons a answers ih =>
    obtain ⟨⟨c₁, uptimes₁⟩, hrecord, hrest⟩ := bind_ok h
    rcases ih hrest with hbefore | ⟨b, hb, hname, hreply⟩
    · obtain ⟨other, hother, ⟨d, hd, -, rfl⟩ | ⟨-, rfl, -⟩⟩ := recordAnswer_cases hrecord
      · by_cases heq : name = other
        · subst heq
          rw [Finmap.lookup_insert] at hbefore
          obtain rfl := Option.some.inj hbefore
          exact Or.inr ⟨a, List.mem_cons_self, hother, hd⟩
        · rw [Finmap.lookup_insert_of_ne _ heq] at hbefore
          exact Or.inl hbefore
      · exact Or.inl hbefore
    · exact Or.inr ⟨b, List.mem_cons_of_mem _ hb, hname, hreply⟩

/-- Among peers with names of their own, every answer is in the map. -/
theorem lookup_of_answer {answers : List Answer} {c c' : Config} {uptimes uptimes' : Uptimes}
    (h : gatherUptimes answers c uptimes = .ok (c', uptimes'))
    (hnodup : (answers.map fun a => Peer.name a.peer).Nodup) {a : Answer} (ha : a ∈ answers)
    {name : String} (hname : Peer.name a.peer = .ok name) {duration : ℤ}
    (hreply : a.reply = .uptime duration) : uptimes'.lookup name = some duration := by
  induction answers generalizing c uptimes with
  | nil => exact absurd ha List.not_mem_nil
  | cons b answers ih =>
    obtain ⟨⟨c₁, uptimes₁⟩, hrecord, hrest⟩ := bind_ok h
    rw [List.map_cons, List.nodup_cons] at hnodup
    rcases List.mem_cons.mp ha with rfl | ha
    · -- no later answer is about this name
      have hne : ∀ b ∈ answers, Peer.name b.peer ≠ .ok name := by
        intro b hb heq
        exact hnodup.1 (List.mem_map.mpr ⟨b, hb, heq.trans hname.symm⟩)
      rw [gatherUptimes_lookup_of_ne hrest hne]
      obtain ⟨other, hother, ⟨d, hd, -, rfl⟩ | ⟨hun, -, -⟩⟩ := recordAnswer_cases hrecord
      · obtain rfl : name = other := Except.ok.inj (hname.symm.trans hother)
        obtain rfl : duration = d := Reply.uptime.inj (hreply.symm.trans hd)
        exact Finmap.lookup_insert _
      · exact absurd (hreply.symm.trans hun) (by simp)
    · exact ih hrest hnodup.2 ha

/-- A vote asks every peer and looks the name with the largest uptime up among those that
answered. -/
theorem vote_polled {c : Config} (hd : DistinctNames c.peers.elems) {answers : List Answer}
    (hp : Polled c.peers.elems answers) (order : RangeOrder String ℤ) :
    ∃ c' uptimes, vote order answers c = (findPeer (oldestPeer order uptimes) c'.peers.elems, c') ∧
      c'.peers.elems = c.peers.elems.filter (fun p => Answered answers p) ∧
      ∀ name duration, uptimes.lookup name = some duration ↔
        ∃ a ∈ answers, Peer.name a.peer = .ok name ∧ a.reply = .uptime duration := by
  obtain ⟨c', uptimes, hgather, hpeers⟩ := gatherUptimes_peers hd
    (fun a ha => hp.mem_peers ha) (List.Subset.refl _) ∅
  refine ⟨c', uptimes, by rw [vote, hgather], ?_, fun name duration => ⟨fun hlookup => ?_, ?_⟩⟩
  · rw [hpeers]
    apply List.filter_congr
    intro p hmem
    rw [decide_eq_decide, hp.answered_iff hd hmem]
  · rcases exists_answer_of_lookup hgather hlookup with hempty | hanswer
    · exact absurd hempty (by simp)
    · exact hanswer
  · rintro ⟨a, ha, hname, hreply⟩
    refine lookup_of_answer hgather ?_ ha hname hreply
    have hnames : (answers.map fun a => Peer.name a.peer)
        = (answers.map Answer.peer).map Peer.name := by
      rw [List.map_map]
      rfl
    rw [hnames]
    exact (hp.perm.map Peer.name).nodup_iff.mpr hd.nodup

/-- When some peer answered, the vote returns one whose uptime no other answer exceeds. -/
theorem vote_of_answered {c : Config} (hd : DistinctNames c.peers.elems) {answers : List Answer}
    (hp : Polled c.peers.elems answers) (order : RangeOrder String ℤ) {a : Answer}
    (ha : a ∈ answers) (hreply : a.reply ≠ .unreachable) :
    ∃ b ∈ answers, (vote order answers c).1 = .ok b.peer ∧
      ∃ longest, b.reply = .uptime longest ∧
        ∀ r ∈ answers, ∀ duration, r.reply = .uptime duration → duration ≤ longest := by
  obtain ⟨c', uptimes, hvote, hpeers, hlookup⟩ := vote_polled hd hp order
  obtain ⟨hfrom, -, hall⟩ := pickMax_spec uptimes (order.keys uptimes) ("", 0)
  -- the loop meets every answer
  have hle : ∀ r ∈ answers, ∀ duration, r.reply = .uptime duration →
      duration ≤ (pickMax uptimes (order.keys uptimes) ("", 0)).2 := by
    intro r hr duration hduration
    obtain ⟨name, hname⟩ := hd.named _ (hp.mem_peers hr)
    have hentry := (hlookup name duration).mpr ⟨r, hr, hname, hduration⟩
    exact hall name ((order.mem_keys _ _).mpr (Finmap.mem_of_lookup_eq_some hentry)) _ hentry
  obtain ⟨duration, hduration⟩ := Reply.eq_uptime hreply
  have hpos := hp.positive a ha duration hduration
  have hmax := hle a ha duration hduration
  -- so it does not end where it started
  rcases hfrom with hstart | hentry
  · rw [hstart] at hmax
    exact absurd (lt_of_lt_of_le hpos hmax) (lt_irrefl 0)
  · obtain ⟨b, hb, hname, hlongest⟩ := (hlookup _ _).mp hentry
    refine ⟨b, hb, ?_, _, hlongest, hle⟩
    have hsub : ∀ p ∈ c'.peers.elems, p ∈ c.peers.elems := by
      rw [hpeers]
      exact fun p hmem => List.mem_of_mem_filter hmem
    have hmem : b.peer ∈ c'.peers.elems := by
      rw [hpeers, List.mem_filter, decide_eq_true_eq]
      exact ⟨hp.mem_peers hb, b, hb, rfl, by rw [hlongest]; simp⟩
    obtain ⟨q, hq⟩ := findPeer_of_mem (fun p hmem => hd.named p (hsub p hmem)) hmem hname
    have heq : q = b.peer := hd.inj (hsub q (findPeer_ok hq).1) (hsub _ hmem)
      ((findPeer_ok hq).2.trans hname.symm)
    rw [hvote, ← heq]
    exact hq

/-- When nobody answered, nobody is left to be found. -/
theorem vote_of_unanswered {c : Config} (hd : DistinctNames c.peers.elems)
    {answers : List Answer} (hp : Polled c.peers.elems answers) (order : RangeOrder String ℤ)
    (h : ∀ a ∈ answers, a.reply = .unreachable) :
    (vote order answers c).1 = .error errPeerNotFound := by
  obtain ⟨c', uptimes, hvote, hpeers, -⟩ := vote_polled hd hp order
  have hnil : c'.peers.elems = [] := by
    rw [hpeers, List.filter_eq_nil_iff]
    intro p _
    rw [decide_eq_true_eq]
    rintro ⟨a, ha, -, hreply⟩
    exact hreply (h a ha)
  rw [hvote, hnil]
  rfl

/-- **The vote.**  Among peers with names of their own, whatever the order in which their
answers come and the order of the loop over the uptimes: the peer that is returned is listed
and its uptime is maximal among the answers; the vote fails exactly when nobody answered; and
the list it leaves is that of the peers that answered, in their order. -/
theorem vote_longest_running {c : Config} (hd : DistinctNames c.peers.elems)
    {answers : List Answer} (hp : Polled c.peers.elems answers) (order : RangeOrder String ℤ) :
    (∀ p, (vote order answers c).1 = .ok p → p ∈ c.peers.elems ∧
      ∃ a ∈ answers, a.peer = p ∧ ∃ longest, a.reply = .uptime longest ∧
        ∀ r ∈ answers, ∀ duration, r.reply = .uptime duration → duration ≤ longest) ∧
    ((∃ e, (vote order answers c).1 = .error e) ↔ ∀ a ∈ answers, a.reply = .unreachable) ∧
    (vote order answers c).2.peers.elems = c.peers.elems.filter (fun p => Answered answers p) := by
  refine ⟨fun p hvote => ?_, ⟨fun hfail a ha => ?_, fun h => ?_⟩, ?_⟩
  · by_cases h : ∃ a ∈ answers, a.reply ≠ .unreachable
    · obtain ⟨a, ha, hreply⟩ := h
      obtain ⟨b, hb, helected, hlongest⟩ := vote_of_answered hd hp order ha hreply
      obtain rfl : b.peer = p := Except.ok.inj (helected.symm.trans hvote)
      exact ⟨hp.mem_peers hb, b, hb, rfl, hlongest⟩
    · push Not at h
      rw [vote_of_unanswered hd hp order h] at hvote
      exact absurd hvote (by simp)
  · obtain ⟨e, hfail⟩ := hfail
    by_contra hreply
    obtain ⟨b, -, helected, -⟩ := vote_of_answered hd hp order ha hreply
    exact absurd (helected.symm.trans hfail) (by simp)
  · exact ⟨_, vote_of_unanswered hd hp order h⟩
  · obtain ⟨c', uptimes, hvote, hpeers, -⟩ := vote_polled hd hp order
    rw [hvote]
    exact hpeers

/-! ## Elections in which every peer answers -/

/-- An uptime answer: the peer that made it, with its name, and the time at which it was
made. -/
structure Sample where
  peer : Peer
  name : String
  named : Peer.name (some peer) = .ok name
  time : ℤ

section Sampled

variable (boot : Peer → ℤ)

/-- `handleUptime`: the time since the peer booted. -/
def Sample.uptime (s : Sample) : ℤ := s.time - boot s.peer

def Sample.answer (s : Sample) : Answer := ⟨some s.peer, .uptime (s.uptime boot)⟩

/-- Every peer of the list answers once, in some order, after it has booted. -/
structure Sampled (peers : List (Option Peer)) (samples : List Sample) : Prop where
  perm : (samples.map fun s => some s.peer).Perm peers
  booted : ∀ s ∈ samples, boot s.peer < s.time

/-- The answer under a name that counts: the last one. -/
def lastSample (name : String) : List Sample → Option Sample
  | [] => none
  | s :: samples => (lastSample name samples).or (if s.name = name then some s else none)

/-- The peer of that name is ahead: every other peer's answer came later than its own by
less than that peer booted later. -/
def Ahead (samples : List Sample) (name : String) : Prop :=
  ∃ s, lastSample name samples = some s ∧
    ∀ other r, lastSample other samples = some r → other ≠ name →
      r.time - s.time < boot r.peer - boot s.peer

/-- The map of the uptimes after the given answers. -/
def recorded : List Sample → Uptimes → Uptimes
  | [], uptimes => uptimes
  | s :: samples, uptimes => recorded samples (uptimes.insert s.name (s.uptime boot))

end Sampled

section Reachable

variable {boot : Peer → ℤ}

theorem Sampled.named {peers : List (Option Peer)} {samples : List Sample}
    (hs : Sampled boot peers samples) : ∀ p ∈ peers, Named p := by
  intro p hp
  obtain ⟨s, -, rfl⟩ := List.mem_map.mp (hs.perm.mem_iff.mpr hp)
  exact ⟨s.name, s.named⟩

theorem mem_of_lastSample {name : String} {samples : List Sample} {s : Sample}
    (h : lastSample name samples = some s) : s ∈ samples ∧ s.name = name := by
  induction samples with
  | nil => exact absurd h (by simp [lastSample])
  | cons r samples ih =>
    rw [lastSample, Option.or_eq_some_iff] at h
    rcases h with h | ⟨-, h⟩
    · exact ⟨List.mem_cons_of_mem _ (ih h).1, (ih h).2⟩
    · rw [Option.ite_none_right_eq_some] at h
      obtain ⟨hname, heq⟩ := h
      obtain rfl := Option.some.inj heq
      exact ⟨List.mem_cons_self, hname⟩

theorem lastSample_isSome {samples : List Sample} {s : Sample} (hs : s ∈ samples) :
    ∃ r, lastSample s.name samples = some r := by
  induction samples with
  | nil => exact absurd hs List.not_mem_nil
  | cons r samples ih =>
    rw [lastSample]
    rcases List.mem_cons.mp hs with rfl | hs
    · cases lastSample s.name samples with
      | none => exact ⟨s, by simp⟩
      | some r => exact ⟨r, rfl⟩
    · obtain ⟨r', hr'⟩ := ih hs
      exact ⟨r', by rw [hr', Option.some_or]⟩

/-- Under each name stands the uptime of the last answer. -/
theorem lookup_recorded (samples : List Sample) (uptimes : Uptimes) (name : String) :
    (recorded boot samples uptimes).lookup name
      = ((lastSample name samples).map (Sample.uptime boot)).or (uptimes.lookup name) := by
  induction samples generalizing uptimes with
  | nil => rfl
  | cons s samples ih =>
    rw [recorded, ih, lastSample]
    cases lastSample name samples with
    | some r => rfl
    | none =>
      by_cases hname : s.name = name
      · rw [if_pos hname, ← hname, Finmap.lookup_insert]
        rfl
      · rw [if_neg hname, Finmap.lookup_insert_of_ne _ (Ne.symm hname)]
        rfl

theorem gatherUptimes_reachable (samples : List Sample) (c : Config) (uptimes : Uptimes) :
    gatherUptimes (samples.map (Sample.answer boot)) c uptimes
      = .ok (c, recorded boot samples uptimes) := by
  induction samples generalizing uptimes with
  | nil => rfl
  | cons s samples ih =>
    have hrecord : recordAnswer (s.answer boot) c uptimes
        = .ok (c, uptimes.insert s.name (s.uptime boot)) := by
      rw [recordAnswer, Sample.answer, s.named]
      rfl
    rw [List.map_cons, gatherUptimes, hrecord]
    exact ih _

/-- The vote when every peer answers: nothing changes, and a peer of the name with the
largest uptime is looked up. -/
theorem vote_reachable (order : RangeOrder String ℤ) (samples : List Sample) (c : Config) :
    vote order (samples.map (Sample.answer boot)) c
      = (findPeer (oldestPeer order (recorded boot samples ∅)) c.peers.elems, c) := by
  rw [vote, gatherUptimes_reachable]

/-- The largest uptime, in terms of the times at which the peers booted and answered. -/
theorem leads_iff_ahead {peers : List (Option Peer)} {samples : List Sample}
    (hs : Sampled boot peers samples) (name : String) :
    Leads (recorded boot samples ∅) 0 name ↔ Ahead boot samples name := by
  have hlookup : ∀ n, (recorded boot samples ∅).lookup n
      = (lastSample n samples).map (Sample.uptime boot) := by
    intro n
    rw [lookup_recorded, Finmap.lookup_empty, Option.or_none]
  constructor
  · rintro ⟨v, hv, -, hlead⟩
    rw [hlookup, Option.map_eq_some_iff] at hv
    obtain ⟨s, hlast, rfl⟩ := hv
    refine ⟨s, hlast, fun other r hr hne => ?_⟩
    have hlt := hlead other (r.uptime boot) (by rw [hlookup, hr]; rfl) hne
    unfold Sample.uptime at hlt
    omega
  · rintro ⟨s, hlast, hahead⟩
    refine ⟨s.uptime boot, by rw [hlookup, hlast]; rfl, ?_, fun other w hw hne => ?_⟩
    · have hbooted := hs.booted s (mem_of_lastSample hlast).1
      unfold Sample.uptime
      omega
    · rw [hlookup, Option.map_eq_some_iff] at hw
      obtain ⟨r, hr, rfl⟩ := hw
      have hlt := hahead other r hr hne
      unfold Sample.uptime
      omega

/-- **Who is elected.**  When every peer answers, whatever the order of the loop, the peer
with that name is looked up exactly when it is ahead. -/
theorem vote_iff_ahead {peers : List (Option Peer)} {samples : List Sample}
    (hs : Sampled boot peers samples) (hne : samples ≠ []) (name : String) :
    (∀ order, oldestPeer order (recorded boot samples ∅) = name) ↔ Ahead boot samples name := by
  rw [← leads_iff_ahead hs]
  apply forall_pickMax_iff (sortedOrder String ℤ)
  obtain ⟨s, hmem⟩ := List.exists_mem_of_ne_nil samples hne
  obtain ⟨r, hr⟩ := lastSample_isSome hmem
  refine ⟨s.name, r.uptime boot, ?_, ?_⟩
  · rw [lookup_recorded, hr]
    rfl
  · have hbooted := hs.booted r (mem_of_lastSample hr).1
    unfold Sample.uptime
    omega

/-- The peer that is ahead is listed, so the lookup finds it. -/
theorem findPeer_of_ahead {peers : List (Option Peer)} {samples : List Sample}
    (hs : Sampled boot peers samples) {name : String} (h : Ahead boot samples name) :
    ∃ p, findPeer name peers = .ok p := by
  obtain ⟨s, hlast, -⟩ := h
  obtain ⟨hmem, rfl⟩ := mem_of_lastSample hlast
  have hp : some s.peer ∈ peers := hs.perm.mem_iff.mp (List.mem_map_of_mem hmem)
  exact findPeer_of_mem hs.named hp s.named

theorem Sampled.ne_nil {peers : List (Option Peer)} {samples : List Sample}
    (hs : Sampled boot peers samples) {name : String} {p : Option Peer}
    (hfind : findPeer name peers = .ok p) : samples ≠ [] := by
  rintro rfl
  have hnil : peers = [] := List.Perm.nil_eq hs.perm |>.symm
  rw [hnil] at hfind
  exact absurd hfind (by simp [findPeer])

/-- The peer that is ahead is elected, whatever the order of the loop. -/
theorem vote_of_ahead {c : Config} {samples : List Sample}
    (hs : Sampled boot c.peers.elems samples) {name : String} (h : Ahead boot samples name)
    {p : Option Peer} (hp : findPeer name c.peers.elems = .ok p) (order : RangeOrder String ℤ) :
    vote order (samples.map (Sample.answer boot)) c = (.ok p, c) := by
  rw [vote_reachable, (vote_iff_ahead hs (hs.ne_nil hp) name).mpr h order, hp]

end Reachable

/-- **When two nodes elect the same peer.**  Two nodes with the same list of peers, all of
which answer both, elect the same peer in every order of their loops exactly when one peer
is ahead in the answers that both of them got. -/
theorem votes_agree_iff {boot : Peer → ℤ} {c₁ c₂ : Config} (hpeers : c₁.peers = c₂.peers)
    {samples₁ samples₂ : List Sample} (hs₁ : Sampled boot c₁.peers.elems samples₁)
    (hs₂ : Sampled boot c₂.peers.elems samples₂) :
    (∀ order₁ order₂, ∃ p,
      (vote order₁ (samples₁.map (Sample.answer boot)) c₁).1 = .ok p ∧
      (vote order₂ (samples₂.map (Sample.answer boot)) c₂).1 = .ok p) ↔
    ∃ name, Ahead boot samples₁ name ∧ Ahead boot samples₂ name := by
  constructor
  · intro h
    simp only [vote_reachable] at h
    obtain ⟨p, hp, -⟩ := h (sortedOrder _ _) (sortedOrder _ _)
    have hne₁ := hs₁.ne_nil hp
    obtain ⟨p', -, hp'⟩ := h (sortedOrder _ _) (sortedOrder _ _)
    have hne₂ := hs₂.ne_nil hp'
    -- both lookups find one peer, and it has one name
    have hname : ∀ order₁ order₂, oldestPeer order₁ (recorded boot samples₁ ∅)
        = oldestPeer order₂ (recorded boot samples₂ ∅) := by
      intro order₁ order₂
      obtain ⟨p, hp₁, hp₂⟩ := h order₁ order₂
      exact Except.ok.inj ((findPeer_ok hp₁).2.symm.trans (findPeer_ok hp₂).2)
    refine ⟨oldestPeer (sortedOrder _ _) (recorded boot samples₁ ∅), ?_, ?_⟩
    · rw [← vote_iff_ahead hs₁ hne₁]
      intro order
      rw [hname order (sortedOrder _ _), hname (sortedOrder _ _) (sortedOrder _ _)]
    · rw [← vote_iff_ahead hs₂ hne₂]
      intro order
      exact (hname (sortedOrder _ _) order).symm
  · rintro ⟨name, h₁, h₂⟩ order₁ order₂
    obtain ⟨p, hp⟩ := findPeer_of_ahead hs₁ h₁
    have hp₂ : findPeer name c₂.peers.elems = .ok p := hpeers ▸ hp
    exact ⟨p, by rw [vote_of_ahead hs₁ h₁ hp], by rw [vote_of_ahead hs₂ h₂ hp₂]⟩

/-- A peer with the given name. -/
def peerNamed (name : String) : Peer := ⟨none, name ++ ":5309", some ⟨[], name, "dir"⟩⟩

/-- The peer of that name answers at the given time. -/
def sampleAt (name : String) (time : ℤ) : Sample := ⟨peerNamed name, name, rfl, time⟩

/-- Two peers, foo and bar. -/
def twoPeers : Config :=
  { Config.new [] with peers := some [some (peerNamed "foo"), some (peerNamed "bar")] }

/-- Bar is not reached, foo has been up for five seconds. -/
def barDown : List Answer :=
  [⟨some (peerNamed "bar"), .unreachable⟩, ⟨some (peerNamed "foo"), .uptime 5⟩]

theorem distinctNames_twoPeers : DistinctNames twoPeers.peers.elems := ⟨by decide, by decide⟩

theorem polled_barDown : Polled twoPeers.peers.elems barDown := by
  refine ⟨List.Perm.swap _ _ _, fun a ha duration hduration => ?_⟩
  rcases List.mem_cons.mp ha with rfl | ha
  · exact absurd hduration (by simp)
  · rw [List.mem_singleton.mp ha] at hduration
    rw [← Reply.uptime.inj hduration]
    decide

theorem vote_longest_running_barDown :
    (vote (sortedOrder _ _) barDown twoPeers).2.peers.elems = [some (peerNamed "foo")] :=
  (vote_longest_running distinctNames_twoPeers polled_barDown
    (sortedOrder _ _)).2.2.trans (by decide)

/-- Bar boots a second after foo. -/
def bootSecondApart : Peer → ℤ := fun p => if p = peerNamed "foo" then 0 else 1

theorem sampled_twoPeers {boot : Peer → ℤ} {t₁ t₂ : ℤ} (h₁ : boot (peerNamed "foo") < t₁)
    (h₂ : boot (peerNamed "bar") < t₂) :
    Sampled boot twoPeers.peers.elems [sampleAt "foo" t₁, sampleAt "bar" t₂] := by
  refine ⟨List.Perm.refl _, fun s hs => ?_⟩
  rcases List.mem_cons.mp hs with rfl | hs
  · exact h₁
  · rw [List.mem_singleton.mp hs]
    exact h₂

theorem lastSample_twoPeers {t₁ t₂ : ℤ} {name : String} {s : Sample}
    (h : lastSample name [sampleAt "foo" t₁, sampleAt "bar" t₂] = some s) :
    (name = "foo" ∧ s = sampleAt "foo" t₁) ∨ (name = "bar" ∧ s = sampleAt "bar" t₂) := by
  obtain ⟨hmem, hname⟩ := mem_of_lastSample h
  rcases List.mem_cons.mp hmem with rfl | hmem
  · exact Or.inl ⟨hname.symm, rfl⟩
  · obtain rfl := List.mem_singleton.mp hmem
    exact Or.inr ⟨hname.symm, rfl⟩

/-- Foo is ahead unless bar's answer comes as much later as bar booted later. -/
theorem ahead_foo {boot : Peer → ℤ} {t₁ t₂ : ℤ}
    (h : t₂ - t₁ < boot (peerNamed "bar") - boot (peerNamed "foo")) :
    Ahead boot [sampleAt "foo" t₁, sampleAt "bar" t₂] "foo" := by
  refine ⟨sampleAt "foo" t₁, rfl, fun other r hr hne => ?_⟩
  rcases lastSample_twoPeers hr with ⟨hfoo, -⟩ | ⟨-, rfl⟩
  · exact absurd hfoo hne
  · exact h

theorem ahead_bar {boot : Peer → ℤ} {t₁ t₂ : ℤ}
    (h : t₁ - t₂ < boot (peerNamed "foo") - boot (peerNamed "bar")) :
    Ahead boot [sampleAt "foo" t₁, sampleAt "bar" t₂] "bar" := by
  refine ⟨sampleAt "bar" t₂, rfl, fun other r hr hne => ?_⟩
  rcases lastSample_twoPeers hr with ⟨-, rfl⟩ | ⟨hbar, -⟩
  · exact h
  · exact absurd hbar hne

theorem votes_agree_twoPeers :
    ∃ p, (vote (sortedOrder _ _) ([sampleAt "foo" 10, sampleAt "bar" 10].map
        (Sample.answer bootSecondApart)) twoPeers).1 = .ok p ∧
      (vote (sortedOrder _ _) ([sampleAt "foo" 30, sampleAt "bar" 29].map
        (Sample.answer bootSecondApart)) twoPeers).1 = .ok p :=
  (votes_agree_iff rfl (sampled_twoPeers (by decide) (by decide))
    (sampled_twoPeers (by decide) (by decide))).mpr
    ⟨"foo", ahead_foo (by decide), ahead_foo (by decide)⟩ (sortedOrder _ _) (sortedOrder _ _)

/-- Bar boots a second after foo, and its answer to the second node comes two seconds after
foo's: the two nodes elect different peers. -/
theorem votes_disagree :
    bootSecondApart (peerNamed "foo") ≠ bootSecondApart (peerNamed "bar") ∧
    Sampled bootSecondApart twoPeers.peers.elems [sampleAt "foo" 10, sampleAt "bar" 10] ∧
    Sampled bootSecondApart twoPeers.peers.elems [sampleAt "foo" 10, sampleAt "bar" 12] ∧
    ∀ order,
      (vote order ([sampleAt "foo" 10, sampleAt "bar" 10].map
        (Sample.answer bootSecondApart)) twoPeers).1 = .ok (some (peerNamed "foo")) ∧
      (vote order ([sampleAt "foo" 10, sampleAt "bar" 12].map
        (Sample.answer bootSecondApart)) twoPeers).1 = .ok (some (peerNamed "bar")) := by
  have hs₁ : Sampled bootSecondApart twoPeers.peers.elems [sampleAt "foo" 10, sampleAt "bar" 10] :=
    sampled_twoPeers (by decide) (by decide)
  have hs₂ : Sampled bootSecondApart twoPeers.peers.elems [sampleAt "foo" 10, sampleAt "bar" 12] :=
    sampled_twoPeers (by decide) (by decide)
  refine ⟨by decide, hs₁, hs₂, fun order => ⟨?_, ?_⟩⟩
  · rw [vote_of_ahead hs₁ (ahead_foo (by decide)) rfl]
  · rw [vote_of_ahead hs₂ (ahead_bar (by decide)) rfl]

end Border
