/-
# The checks of a node and what their actions do

Model of `buildHealthChecks` in `pkg/launcher/launcher.go`: the checks a node runs, one for
each peer, one for each address of an A record and each of the record's health checks, and
for LB records one for each backend and for each address of the peer behind a listener.

The actions of a check are closures.  A `CheckClosure` is what such a closure holds: the
peer, the record, or the record and the variable of the loop it was made in, which is read
when the action runs.

* `buildHealthChecks_ok` : which checks there are, and what the loop variables hold when the
  function returns;
* `prunesEntry_iff` : the actions of a check of an LB record prune and put back the entry
  the check was made for exactly when that is the last entry of the list.
-/
import Border.Capture
import Border.Election

namespace Border

open GoJson GoMap NetAddr Capture

/-! ## The records of a configuration -/

/-- The record at a place of the zones. -/
def recordAt (zones : Zones) (key : String) (idx : ℕ) : Option Record :=
  match zones.lookup key with
  | some (some zone) => (zone.records.elems[idx]?).join
  | _ => none

/-- The value of the record at a place of the zones. -/
def valueAt (zones : Zones) (key : String) (idx : ℕ) : Option RecordValue :=
  (recordAt zones key idx).bind Record.value

/-- Change the object behind the value of a record. -/
def modifyValue (key : String) (idx : ℕ) (f : RecordValue → RecordValue) (zones : Zones) : Zones :=
  match zones.lookup key with
  | some (some zone) =>
    zones.insert key (some { zone with
      records := zone.records.map fun rs =>
        rs.modify idx (Option.map fun r => { r with value := r.value.map f }) })
  | _ => zones

theorem valueAt_modifyValue_self (key : String) (idx : ℕ) (f : RecordValue → RecordValue)
    (zones : Zones) :
    valueAt (modifyValue key idx f zones) key idx = (valueAt zones key idx).map f := by
  unfold modifyValue valueAt recordAt
  cases hlookup : zones.lookup key with
  | none => simp [hlookup]
  | some zone =>
    cases zone with
    | none => simp [hlookup]
    | some zone =>
      obtain ⟨soa, ns, records⟩ := zone
      cases records with
      | none => simp [Slice.elems]
      | some rs =>
        simp only [Finmap.lookup_insert, Slice.elems, Option.map_some, Option.getD_some,
          List.getElem?_modify_eq]
        cases rs[idx]? with
        | none => rfl
        | some r =>
          cases r with
          | none => rfl
          | some r => rfl

theorem valueAt_modifyValue_ne {key key' : String} {idx idx' : ℕ} (f : RecordValue → RecordValue)
    (zones : Zones) (hne : (key', idx') ≠ (key, idx)) :
    valueAt (modifyValue key idx f zones) key' idx' = valueAt zones key' idx' := by
  unfold modifyValue valueAt recordAt
  cases hlookup : zones.lookup key with
  | none => rfl
  | some zone =>
    cases zone with
    | none => rfl
    | some zone =>
      by_cases hkey : key' = key
      · obtain rfl := hkey
        have hidx : idx ≠ idx' := fun h => hne (by rw [h])
        obtain ⟨soa, ns, records⟩ := zone
        cases records with
        | none => simp [hlookup, Slice.elems]
        | some rs =>
          simp only [Finmap.lookup_insert, hlookup, Slice.elems, Option.map_some,
            Option.getD_some, List.getElem?_modify_ne _ _ hidx]
      · simp only [Finmap.lookup_insert_of_ne _ hkey]

/-! ## Checks and closures -/

/-- The two lists of an LB record that are pruned. -/
inductive LBSide
  | backends
  | listeners
  deriving DecidableEq, Repr

def LBRecord.entries : LBSide → LBRecord → List String
  | .backends, lb => lb.backends
  | .listeners, lb => lb.listeners

def LBRecord.setEntries : LBSide → List String → LBRecord → LBRecord
  | .backends, entries, lb => { lb with backends := entries }
  | .listeners, entries, lb => { lb with listeners := entries }

/-- What the actions of a check hold. -/
inductive CheckClosure
  /-- `innerPeer`. -/
  | peer (innerPeer : Option Peer)
  /-- `aRecord`, the value of the record at that place. -/
  | address (key : String) (idx : ℕ)
  /-- `lbRecord` and the variable of the loop over that list.  `subject` is the value the
  variable had when the closure was made; the actions do not read it. -/
  | entry (side : LBSide) (key : String) (idx : ℕ) (var : ℕ) (subject : String)
  deriving DecidableEq

/-- `healthcheck.HealthCheckAction`. -/
structure HealthCheckAction where
  check : HealthCheck
  closure : CheckClosure
  deriving DecidableEq

/-- What `buildHealthChecks` has built so far. -/
abbrev Builder := Frame String HealthCheckAction

/-- `time.Second`. -/
def second : ℤ := 1000000000

/-- The check of a peer. -/
def peerAction : Option Peer → Except Failure HealthCheckAction
  | none => .error nilDereference
  | some peer => do
    let name ← Peer.name (some peer)
    .ok ⟨{ name := quoted name ++ " peer check", type := .http, timeout := second, failures := 3
           target := "http://" ++ peer.controlServer ++ "/" ++ "ping", failed := false },
      .peer (some peer)⟩

/-- The copy of a record's health check for one target. -/
def newCheck (check : HealthCheck) (recName target : String) : HealthCheck :=
  { check.copy with
    name := if check.name = "" then recName else check.name
    type := if check.type = .other "" then .ping else check.type
    target := target }

/-- The checks of an A record. -/
def addressActions (key : String) (idx : ℕ) (recName : String) (a : ARecord) :
    List HealthCheckAction :=
  a.healthCheck.flatMap fun check =>
    a.addresses.map fun ip => ⟨newCheck check recName (ipString ip), .address key idx⟩

section LB

variable (peers : List (Option Peer)) (key : String) (idx : ℕ) (recName : String)
  (check : HealthCheck)

/-- The body of the loop over the backends. -/
def backendBody (var : ℕ) (backend : String) : Except Failure (List HealthCheckAction) :=
  match splitHostPort backend with
  | .error e =>
    .error (.error ("While computing healthcheck records for load balancer backend "
      ++ quoted backend ++ ": " ++ e))
  | .ok (host, _) => .ok [⟨newCheck check recName host, .entry .backends key idx var backend⟩]

/-- The body of the loop over the listeners.  When no peer has the name, the text of the
error asks the missing peer for its name. -/
def listenerBody (var : ℕ) (listener : String) : Except Failure (List HealthCheckAction) :=
  match splitHostPort listener with
  | .error e =>
    .error (.error ("While computing healthcheck records for load balancer listener "
      ++ quoted listener ++ ": " ++ e))
  | .ok (host, _) =>
    match findPeer host peers with
    | .ok (some peer) =>
      .ok (peer.ips.elems.map fun ip =>
        ⟨newCheck check recName (ipString ip), .entry .listeners key idx var listener⟩)
    | _ => .error nilDereference

/-- The body of the loop over the list of that side. -/
def entryBody : LBSide → ℕ → String → Except Failure (List HealthCheckAction)
  | .backends => backendBody key idx recName check
  | .listeners => listenerBody peers key idx recName check

/-- The checks of an LB record for one of its health checks. -/
def lbActions (lb : LBRecord) (b : Builder) : Except Failure Builder := do
  let b ← forRange "" (entryBody peers key idx recName check .backends) lb.backends b
  forRange "" (entryBody peers key idx recName check .listeners) lb.listeners b

end LB

/-- A type assertion on the value of a record. -/
def assertionPanic (type : String) : Failure :=
  .panic ("interface conversion: dnsconfig.Record is not " ++ type)

/-- The loop over the health checks of an LB record. -/
def lbRecordActions (peers : List (Option Peer)) (key : String) (idx : ℕ) (recName : String)
    (lb : LBRecord) : List HealthCheck → Builder → Except Failure Builder
  | [], b => .ok b
  | check :: checks, b => do
    let b ← lbActions peers key idx recName check lb b
    lbRecordActions peers key idx recName lb checks b

/-- The checks of a record. -/
def recordActions (peers : List (Option Peer)) (key : String) (idx : ℕ) (rec : Record)
    (b : Builder) : Except Failure Builder :=
  match rec.type with
  | .a =>
    match rec.value with
    | some (.a a) => .ok { b with made := b.made ++ addressActions key idx rec.name a }
    | _ => .error (assertionPanic "*dnsconfig.A")
  | .lb =>
    match rec.value with
    | some (.lb lb) => lbRecordActions peers key idx rec.name lb lb.healthCheck b
    | _ => .error (assertionPanic "*dnsconfig.LB")
  | .other _ => .ok b

/-- The loop over the records of a zone. -/
def zoneActions (peers : List (Option Peer)) (key : String) :
    ℕ → List (Option Record) → Builder → Except Failure Builder
  | _, [], b => .ok b
  | _, none :: _, _ => .error nilDereference
  | idx, some rec :: rest, b => do
    let b ← recordActions peers key idx rec b
    zoneActions peers key (idx + 1) rest b

/-- The loop over the zones. -/
def zonesActions (peers : List (Option Peer)) (zones : Zones) :
    List String → Builder → Except Failure Builder
  | [], b => .ok b
  | key :: keys, b =>
    match zones.lookup key with
    | none => zonesActions peers zones keys b
    | some none => .error nilDereference
    | some (some zone) => do
      let b ← zoneActions peers key 0 zone.records.elems b
      zonesActions peers zones keys b

/-- `Server.buildHealthChecks`: the checks with their actions, and the loop variables the
actions hold. -/
def buildHealthChecks (order : RangeOrder String (Option Zone)) (c : ConfigData) :
    Except Failure Builder := do
  let checks ← c.peers.elems.mapM peerAction
  zonesActions c.peers.elems c.zones (order.keys c.zones) ⟨checks, []⟩

/-! ## Which checks there are -/

/-- A check that was made for a record of the given zones, with the loop variables as they
are when the loops are over. -/
inductive RecordCheck (zones : Zones) (vars : List String) : HealthCheckAction → Prop
  | address {check : HealthCheck} {key : String} {idx : ℕ} {a : ARecord} {ip : IP}
      (hvalue : valueAt zones key idx = some (.a a)) (hip : ip ∈ a.addresses)
      (htarget : check.target = ipString ip) (hfresh : check.failed = false) :
      RecordCheck zones vars ⟨check, .address key idx⟩
  | entry {check : HealthCheck} {side : LBSide} {key : String} {idx var : ℕ} {subject : String}
      {lb : LBRecord} (hvalue : valueAt zones key idx = some (.lb lb))
      (hsubject : subject ∈ lb.entries side) (hvar : vars[var]? = (lb.entries side).getLast?)
      (hfresh : check.failed = false) :
      RecordCheck zones vars ⟨check, .entry side key idx var subject⟩

/-- Later loops have variables of their own. -/
theorem RecordCheck.append {zones : Zones} {vars : List String} {a : HealthCheckAction}
    (h : RecordCheck zones vars a) (more : List String) : RecordCheck zones (vars ++ more) a := by
  cases h with
  | address hvalue hip htarget hfresh => exact .address hvalue hip htarget hfresh
  | @entry _ _ _ _ var _ lb hvalue hsubject hvar hfresh =>
    refine .entry hvalue hsubject ?_ hfresh
    obtain ⟨last, hlast⟩ := List.getLast?_isSome.mpr (List.ne_nil_of_mem hsubject) |>
      Option.isSome_iff_exists.mp
    rw [hlast] at hvar ⊢
    exact List.getElem?_append_left (List.getElem?_eq_some_iff.mp hvar).1 ▸ hvar

/-- The builder has gone on from `b` to `b'` by checks of records. -/
def Extends (zones : Zones) (b b' : Builder) : Prop :=
  ∃ new more, b'.made = b.made ++ new ∧ b'.vars = b.vars ++ more ∧
    ∀ a ∈ new, RecordCheck zones b'.vars a

section Extends

variable {zones : Zones} {b b' b'' : Builder}

theorem Extends.refl (b : Builder) : Extends zones b b :=
  ⟨[], [], (List.append_nil _).symm, (List.append_nil _).symm,
    fun _ ha => absurd ha List.not_mem_nil⟩

theorem Extends.trans (h : Extends zones b b') (h' : Extends zones b' b'') :
    Extends zones b b'' := by
  obtain ⟨new, more, hmade, hvars, hnew⟩ := h
  obtain ⟨new', more', hmade', hvars', hnew'⟩ := h'
  refine ⟨new ++ new', more ++ more', ?_, ?_, fun a ha => ?_⟩
  · rw [hmade', hmade, List.append_assoc]
  · rw [hvars', hvars, List.append_assoc]
  · rcases List.mem_append.mp ha with ha | ha
    · rw [hvars']
      exact (hnew a ha).append more'
    · exact hnew' a ha

variable {peers : List (Option Peer)} {key : String} {idx : ℕ} {recName : String}

/-- A check made by the loop over a list of an LB record holds the variable of that loop. -/
theorem closure_of_entryBody {check : HealthCheck} {side : LBSide} {var : ℕ} {x : String}
    {as : List HealthCheckAction} (h : entryBody peers key idx recName check side var x = .ok as)
    {a : HealthCheckAction} (ha : a ∈ as) :
    ∃ target, a = ⟨newCheck check recName target, .entry side key idx var x⟩ := by
  cases side with
  | backends =>
    simp only [entryBody, backendBody] at h
    split at h
    · exact absurd h (by simp)
    next host _ _ =>
      rw [← Except.ok.inj h] at ha
      exact ⟨host, List.mem_singleton.mp ha⟩
  | listeners =>
    simp only [entryBody, listenerBody] at h
    split at h
    · exact absurd h (by simp)
    · split at h
      next peer _ =>
        rw [← Except.ok.inj h] at ha
        obtain ⟨ip, -, rfl⟩ := List.mem_map.mp ha
        exact ⟨ipString ip, rfl⟩
      next => exact absurd h (by simp)

/-- One loop over a list of an LB record. -/
theorem extends_forRange (side : LBSide) {check : HealthCheck} {lb : LBRecord}
    (hvalue : valueAt zones key idx = some (.lb lb))
    (h : forRange "" (entryBody peers key idx recName check side) (lb.entries side) b = .ok b') :
    Extends zones b b' := by
  obtain ⟨hvars, new, hmade, hnew⟩ := forRange_ok h
  refine ⟨new, _, hmade, hvars, fun a ha => ?_⟩
  obtain ⟨x, hx, as, hbody, has⟩ := hnew a ha
  obtain ⟨target, rfl⟩ := closure_of_entryBody hbody has
  refine .entry hvalue hx ?_ rfl
  have hne : lb.entries side ≠ [] := List.ne_nil_of_mem hx
  rw [hvars, List.getElem?_concat_length, List.getLast?_eq_some_getLast hne,
    List.getLastD_eq_getLast?, List.getLast?_eq_some_getLast hne, Option.getD_some]

theorem extends_lbRecordActions {lb : LBRecord} (hvalue : valueAt zones key idx = some (.lb lb))
    {checks : List HealthCheck}
    (h : lbRecordActions peers key idx recName lb checks b = .ok b') : Extends zones b b' := by
  induction checks generalizing b with
  | nil =>
    obtain rfl := Except.ok.inj h
    exact .refl b
  | cons check checks ih =>
    obtain ⟨b₁, h₁, hrest⟩ := bind_ok h
    obtain ⟨b₂, hbackends, hlisteners⟩ := bind_ok h₁
    have hb : Extends zones b b₂ := extends_forRange .backends hvalue hbackends
    have hl : Extends zones b₂ b₁ := extends_forRange .listeners hvalue hlisteners
    exact (hb.trans hl).trans (ih hrest)

theorem extends_recordActions {rec : Record} (hrec : recordAt zones key idx = some rec)
    (h : recordActions peers key idx rec b = .ok b') : Extends zones b b' := by
  have hvalue : valueAt zones key idx = rec.value := by
    rw [valueAt, hrec]
    rfl
  unfold recordActions at h
  split at h
  · split at h
    next a ha =>
      obtain rfl := Except.ok.inj h
      refine ⟨addressActions key idx rec.name a, [], rfl, (List.append_nil _).symm, fun x hx => ?_⟩
      obtain ⟨check, -, hx⟩ := List.mem_flatMap.mp hx
      obtain ⟨ip, hip, rfl⟩ := List.mem_map.mp hx
      exact .address (hvalue.trans ha) hip rfl rfl
    next => exact absurd h (by simp)
  · split at h
    next lb hlb => exact extends_lbRecordActions (hvalue.trans hlb) h
    next => exact absurd h (by simp)
  · obtain rfl := Except.ok.inj h
    exact .refl b

theorem extends_zoneActions {zone : Zone} (hzone : zones.lookup key = some (some zone))
    {rs : List (Option Record)} (hrs : zone.records.elems.drop idx = rs)
    (h : zoneActions peers key idx rs b = .ok b') : Extends zones b b' := by
  induction rs generalizing idx b with
  | nil =>
    obtain rfl := Except.ok.inj h
    exact .refl b
  | cons r rs ih =>
    cases r with
    | none => exact absurd h (by simp [zoneActions])
    | some rec =>
      obtain ⟨b₁, h₁, hrest⟩ := bind_ok h
      have hget : zone.records.elems[idx]? = some (some rec) := by
        rw [← List.head?_drop, hrs]
        rfl
      have hrec : recordAt zones key idx = some rec := by
        rw [recordAt, hzone]
        simp only [hget]
        rfl
      have hdrop : zone.records.elems.drop (idx + 1) = rs := by
        rw [← List.tail_drop, hrs]
        rfl
      exact (extends_recordActions hrec h₁).trans (ih hdrop hrest)

theorem extends_zonesActions {keys : List String}
    (h : zonesActions peers zones keys b = .ok b') : Extends zones b b' := by
  induction keys generalizing b with
  | nil =>
    obtain rfl := Except.ok.inj h
    exact .refl b
  | cons key keys ih =>
    rw [zonesActions] at h
    split at h
    · exact ih h
    · exact absurd h (by simp)
    next zone hzone =>
      obtain ⟨b₁, h₁, hrest⟩ := bind_ok h
      exact (extends_zoneActions hzone rfl h₁).trans (ih hrest)

end Extends

theorem peerAction_ok {p : Option Peer} {a : HealthCheckAction} (h : peerAction p = .ok a) :
    a.closure = .peer p ∧ a.check.failures = 3 ∧ a.check.failed = false := by
  cases p with
  | none => exact absurd h (by simp [peerAction])
  | some peer =>
    obtain ⟨name, -, ha⟩ := bind_ok h
    rw [← Except.ok.inj ha]
    exact ⟨rfl, rfl, rfl⟩

/-- **The checks of a node.**  First one for each peer, in order; then those of the
records. -/
theorem buildHealthChecks_ok {order : RangeOrder String (Option Zone)} {c : ConfigData}
    {b : Builder} (h : buildHealthChecks order c = .ok b) :
    ∃ peerChecks rest, b.made = peerChecks ++ rest ∧
      peerChecks.map HealthCheckAction.closure = c.peers.elems.map CheckClosure.peer ∧
      (∀ a ∈ peerChecks, a.check.failed = false) ∧
      ∀ a ∈ rest, RecordCheck c.zones b.vars a := by
  obtain ⟨peerChecks, hpeers, hzones⟩ := bind_ok h
  obtain ⟨rest, more, hmade, -, hrest⟩ := extends_zonesActions hzones
  refine ⟨peerChecks, rest, hmade, ?_, fun a ha => ?_, hrest⟩
  · exact map_of_mapM (fun p _ a ha => (peerAction_ok ha).1) hpeers
  · have hmem : Except.ok a ∈ c.peers.elems.map peerAction := by
      rw [mapM_eq_ok_iff.mp hpeers]
      exact List.mem_map_of_mem ha
    obtain ⟨p, -, hp⟩ := List.mem_map.mp hmem
    exact (peerAction_ok hp).2.2

theorem fresh_of_build {order : RangeOrder String (Option Zone)} {c : ConfigData} {b : Builder}
    (hbuild : buildHealthChecks order c = .ok b) :
    ∀ a ∈ b.made, a.check.failed = false := by
  obtain ⟨peerChecks, rest, hmade, -, hpeers, hrest⟩ := buildHealthChecks_ok hbuild
  intro a ha
  rw [hmade] at ha
  rcases List.mem_append.mp ha with ha | ha
  · exact hpeers a ha
  · cases hrest a ha with
    | address _ _ _ hfresh => exact hfresh
    | entry _ _ _ hfresh => exact hfresh

/-- A check that is not that of a peer was made for a record. -/
theorem recordCheck_of_mem {order : RangeOrder String (Option Zone)} {c : ConfigData} {b : Builder}
    (hbuild : buildHealthChecks order c = .ok b) {a : HealthCheckAction} (ha : a ∈ b.made)
    (hnot : ∀ p, a.closure ≠ .peer p) : RecordCheck c.zones b.vars a := by
  obtain ⟨peerChecks, rest, hmade, hclosures, -, hrest⟩ := buildHealthChecks_ok hbuild
  rw [hmade] at ha
  rcases List.mem_append.mp ha with ha | ha
  · have hclosure := List.mem_map_of_mem (f := HealthCheckAction.closure) ha
    rw [hclosures] at hclosure
    obtain ⟨p, -, hp⟩ := List.mem_map.mp hclosure
    exact absurd hp.symm (hnot p)
  · exact hrest a ha

/-! ## The actions -/

/-- The answers of an election, and the order of its loop over the uptimes. -/
structure Ballot where
  order : RangeOrder String ℤ
  answers : List Answer

/-- An election that asks every peer of the list.  Its error is only logged. -/
def elect (ballot : Ballot) (c : Config) : Option Config :=
  if (ballot.answers.map Answer.peer).Perm c.peers.elems then
    match holdElection ballot.order ballot.answers c with
    | (.error (.panic _), _) => none
    | (_, c') => some c'
  else none

/-- The `FailedAction` of an address. -/
def ARecord.prune (target : String) (a : ARecord) : ARecord :=
  { a with addresses := a.addresses.filter fun ip => ipString ip ≠ target }

/-- The `ReviveAction` of an address. -/
def ARecord.putBack (target : String) (a : ARecord) : ARecord :=
  { a with addresses := a.addresses ++ [(parseIP target).getD []] }

/-- The `FailedAction` of a backend or a listener. -/
def LBRecord.prune (side : LBSide) (entry : String) (lb : LBRecord) : LBRecord :=
  lb.setEntries side ((lb.entries side).filter (· ≠ entry))

/-- The `ReviveAction` of a backend or a listener. -/
def LBRecord.putBack (side : LBSide) (entry : String) (lb : LBRecord) : LBRecord :=
  lb.setEntries side (lb.entries side ++ [entry])

/-- What an action does to the value of its record; `target` is that of the check. -/
def CheckClosure.update (vars : List String) (target : String) :
    CheckClosure → CheckAction → RecordValue → RecordValue
  | .address _ _, .failed, .a a => .a (a.prune target)
  | .address _ _, .revive, .a a => .a (a.putBack target)
  | .entry side _ _ var _, .failed, .lb lb => .lb (lb.prune side (vars.getD var ""))
  | .entry side _ _ var _, .revive, .lb lb => .lb (lb.putBack side (vars.getD var ""))
  | _, _, value => value

/-- Run an action of a check, in one step; `none` when it panics or the ballot is not one for the
peers that are listed. -/
def CheckClosure.perform (vars : List String) (ballot : Ballot) (target : String)
    (closure : CheckClosure) (action : CheckAction) (c : Config) : Option Config :=
  match closure, action with
  | .peer innerPeer, .failed =>
    match c.removePeer innerPeer with
    | .error _ => none
    | .ok c' => elect ballot c'
  | .peer innerPeer, .revive => elect ballot (c.addPeer innerPeer)
  | .address key idx, action =>
    some { c with zones := modifyValue key idx (closure.update vars target action) c.zones }
  | .entry _ key idx _ _, action =>
    some { c with zones := modifyValue key idx (closure.update vars target action) c.zones }

/-! ## The entries of LB records -/

theorem LBRecord.entries_setEntries (side : LBSide) (entries : List String) (lb : LBRecord) :
    (lb.setEntries side entries).entries side = entries := by
  cases side <;> rfl

/-- `FailedAction` removes the entry and nothing else from the record, and `ReviveAction`
puts it back. -/
def PrunesEntry (vars : List String) (a : HealthCheckAction) (ballot : Ballot) (side : LBSide)
    (key : String) (idx : ℕ) (entry : String) (c : Config) : Prop :=
  ∀ lb, valueAt c.zones key idx = some (.lb lb) →
    (∃ c', a.closure.perform vars ballot a.check.target .failed c = some c' ∧
      valueAt c'.zones key idx
        = some (.lb (lb.setEntries side ((lb.entries side).filter (· ≠ entry))))) ∧
    (∃ c', a.closure.perform vars ballot a.check.target .revive c = some c' ∧
      valueAt c'.zones key idx = some (.lb (lb.setEntries side (lb.entries side ++ [entry]))))

/-- A check prunes the entry that its loop variable holds. -/
theorem prunesEntry_iff_var {vars : List String} {check : HealthCheck} {side : LBSide}
    {key : String} {idx var : ℕ} {subject entry : String} {ballot : Ballot} {c : Config}
    (hlb : ∃ lb, valueAt c.zones key idx = some (.lb lb)) :
    PrunesEntry vars ⟨check, .entry side key idx var subject⟩ ballot side key idx entry c ↔
      vars.getD var "" = entry := by
  obtain ⟨lb, hlb⟩ := hlb
  have hvalueAt : ∀ action, valueAt (modifyValue key idx ((CheckClosure.entry side key idx var
      subject).update vars check.target action) c.zones) key idx
        = some ((CheckClosure.entry side key idx var subject).update vars check.target action
          (.lb lb)) := by
    intro action
    rw [valueAt_modifyValue_self, hlb]
    rfl
  constructor
  · intro h
    -- what `ReviveAction` appends is the value of the variable
    obtain ⟨-, c₁, hperform, hafter⟩ := h lb hlb
    obtain rfl := Option.some.inj hperform
    have hentries := (hvalueAt .revive).symm.trans hafter
    have heq : lb.putBack side (vars.getD var "")
        = lb.setEntries side (lb.entries side ++ [entry]) :=
      RecordValue.lb.inj (Option.some.inj hentries)
    have hlist := congrArg (LBRecord.entries side) heq
    rwa [LBRecord.putBack, LBRecord.entries_setEntries, LBRecord.entries_setEntries,
      List.append_cancel_left_eq, List.singleton_inj] at hlist
  · rintro rfl lb₁ hlb₁
    obtain rfl : lb₁ = lb := RecordValue.lb.inj (Option.some.inj (hlb₁.symm.trans hlb))
    exact ⟨⟨_, rfl, hvalueAt .failed⟩, ⟨_, rfl, hvalueAt .revive⟩⟩

/-- **What the checks of an LB record prune.**  A check that was made for an entry of a list
of an LB record prunes and puts back that entry, in any state of the record, exactly when it
is the last entry of the list the checks were made from. -/
theorem prunesEntry_iff {order : RangeOrder String (Option Zone)} {c : ConfigData} {b : Builder}
    (hbuild : buildHealthChecks order c = .ok b) {check : HealthCheck} {side : LBSide}
    {key : String} {idx var : ℕ} {subject : String}
    (ha : ⟨check, .entry side key idx var subject⟩ ∈ b.made) :
    ∃ lb, valueAt c.zones key idx = some (.lb lb) ∧ subject ∈ lb.entries side ∧
      ∀ ballot c', (∃ lb', valueAt c'.zones key idx = some (.lb lb')) →
        (PrunesEntry b.vars ⟨check, .entry side key idx var subject⟩ ballot side key idx subject c'
          ↔ (lb.entries side).getLast? = some subject) := by
  cases recordCheck_of_mem hbuild ha (by simp) with
  | @entry _ _ _ _ _ _ lb hvalue hsubject hvar hfresh =>
    refine ⟨lb, hvalue, hsubject, fun ballot c' hlb => ?_⟩
    have hne : lb.entries side ≠ [] := List.ne_nil_of_mem hsubject
    have hget : b.vars.getD var "" = (lb.entries side).getLast hne := by
      rw [List.getD_eq_getElem?_getD, hvar, List.getLast?_eq_some_getLast hne, Option.getD_some]
    rw [prunesEntry_iff_var hlb, hget, List.getLast?_eq_some_getLast hne, Option.some.injEq]

/-- An LB record with two backends and one health check. -/
def lbTwoBackends : LBRecord where
  listeners := ["foo:8000"]
  kind := "tcp"
  backends := ["127.0.0.1:8001", "127.0.0.2:8001"]
  simultaneousConnections := defaultSimultaneousConnections
  maxConnectionsPerAddress := defaultMaxConnectionsPerAddress
  connectionTimeout := 0
  ttl := 60
  tls := none
  healthCheck := [⟨"web", .ping, second, 3, "", false⟩]

/-- A configuration with the peer foo and that record. -/
def twoBackendsConfig : Config :=
  { Config.new [] with
    peers := some [some (peerNamed "foo")]
    zones := Finmap.singleton "test." (some {
      soa := some ⟨"test.", "admin.test.", 60, 1, 60, 1, 120⟩
      ns := some ⟨["ns.test."], 60⟩
      records := some [some ⟨.lb, "lb.test.", none, some (.lb lbTwoBackends)⟩] }) }

/-- The check of a backend of that record, with the variable of its loop. -/
def backendCheck (host backend : String) : HealthCheckAction :=
  ⟨⟨"web", .ping, second, 3, host, false⟩, .entry .backends "test." 0 0 backend⟩

theorem buildHealthChecks_twoBackends :
    ∃ b, buildHealthChecks (sortedOrder String (Option Zone)) twoBackendsConfig.toConfigData = .ok b ∧
      backendCheck "127.0.0.1" "127.0.0.1:8001" ∈ b.made ∧
      backendCheck "127.0.0.2" "127.0.0.2:8001" ∈ b.made ∧
      b.vars = ["127.0.0.2:8001", "foo:8000"] := by
  have hrun : (buildHealthChecks (sortedOrder String (Option Zone))
      twoBackendsConfig.toConfigData).toOption.any (fun b =>
        backendCheck "127.0.0.1" "127.0.0.1:8001" ∈ b.made ∧
        backendCheck "127.0.0.2" "127.0.0.2:8001" ∈ b.made ∧
        b.vars = ["127.0.0.2:8001", "foo:8000"]) := by decide +kernel
  obtain ⟨b, hb, hfacts⟩ := (Option.any_eq_true _ _).mp hrun
  refine ⟨b, ?_, of_decide_eq_true hfacts⟩
  cases hbuild : buildHealthChecks (sortedOrder String (Option Zone))
      twoBackendsConfig.toConfigData with
  | error e =>
    rw [hbuild] at hb
    exact absurd hb (by simp [Except.toOption])
  | ok b' =>
    rw [hbuild] at hb
    rw [Option.some.inj hb]

theorem valueAt_twoBackends :
    valueAt twoBackendsConfig.zones "test." 0 = some (.lb lbTwoBackends) := rfl

/-- The check of the last backend prunes it and puts it back. -/
theorem prunesEntry_lastBackend :
    PrunesEntry ["127.0.0.2:8001", "foo:8000"] (backendCheck "127.0.0.2" "127.0.0.2:8001")
      ⟨sortedOrder String ℤ, []⟩ .backends "test." 0 "127.0.0.2:8001" twoBackendsConfig := by
  obtain ⟨b, hbuild, -, hmem, hvars⟩ := buildHealthChecks_twoBackends
  obtain ⟨lb, hvalue, -, hiff⟩ := prunesEntry_iff hbuild hmem
  obtain rfl : lbTwoBackends = lb :=
    RecordValue.lb.inj (Option.some.inj (valueAt_twoBackends.symm.trans hvalue))
  rw [← hvars]
  exact (hiff _ twoBackendsConfig ⟨_, hvalue⟩).mpr rfl

/-- The check of the first backend: its failure removes the second one and leaves the first,
and its revival appends the second one. -/
theorem firstBackend_prunes_last :
    ∃ b, buildHealthChecks (sortedOrder String (Option Zone)) twoBackendsConfig.toConfigData = .ok b ∧
      backendCheck "127.0.0.1" "127.0.0.1:8001" ∈ b.made ∧
      ∀ ballot, ∃ c' c'',
        (backendCheck "127.0.0.1" "127.0.0.1:8001").closure.perform b.vars ballot "127.0.0.1"
          .failed twoBackendsConfig = some c' ∧
        valueAt c'.zones "test." 0 = some (.lb { lbTwoBackends with backends := ["127.0.0.1:8001"] }) ∧
        (backendCheck "127.0.0.1" "127.0.0.1:8001").closure.perform b.vars ballot "127.0.0.1"
          .revive c' = some c'' ∧
        valueAt c''.zones "test." 0 = some (.lb lbTwoBackends) ∧
        ¬ PrunesEntry b.vars (backendCheck "127.0.0.1" "127.0.0.1:8001") ballot .backends "test." 0
          "127.0.0.1:8001" twoBackendsConfig := by
  obtain ⟨b, hbuild, hmem, -, hvars⟩ := buildHealthChecks_twoBackends
  refine ⟨b, hbuild, hmem, fun ballot => ?_⟩
  rw [hvars]
  refine ⟨_, _, rfl, by decide +kernel, rfl, by decide +kernel, fun h => ?_⟩
  obtain ⟨⟨c', hperform, hvalue⟩, -⟩ := h lbTwoBackends valueAt_twoBackends
  obtain rfl := Option.some.inj hperform
  exact absurd hvalue (by decide +kernel)

end Border
