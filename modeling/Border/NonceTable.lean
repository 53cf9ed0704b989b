/-
# The nonce table of the control server

Model of `validateNonce`, `expireNonces` (`pkg/controlserver/controlserver.go`)
and `handleNonce` (`pkg/controlserver/handlers.go`).  The server keeps a
`map[string]time.Time` from each nonce it handed out to the time it was issued;
three operations touch it:

* `handleNonce` draws `NonceSize` random bytes until they are not a key, and
  inserts them with the current time;
* `validateNonce` accepts a nonce that is a key and has not expired, and deletes
  it;
* `expireNonces` walks over the entries and deletes the expired ones.

The abstract view is the history of issuings and acceptances: a nonce is live at
a time if some issuing of it has neither expired nor been followed by an
acceptance (`Live`).  `Refines` ties the table to that history; every operation
keeps it, so the table answers exactly like the set of live nonces.

Times are integers (nanoseconds), durations are their differences.
-/
import Mathlib

namespace Border

/-- A nonce is a Go string: any sequence of bytes. -/
abbrev Nonce := List UInt8

/-- `api.NonceSize`. -/
def nonceSize : ℕ := 128

/-- `Server.nonces`. -/
abbrev NonceTable := Finmap (fun _ : Nonce => ℤ)

/-- `t.Before(time.Now().Add(-s.expireTime))`. -/
def expired (expireTime now t : ℤ) : Bool := decide (t < now - expireTime)

theorem expired_eq_false_iff (expireTime now t : ℤ) :
    expired expireTime now t = false ↔ now ≤ t + expireTime := by
  unfold expired
  rw [decide_eq_false_iff_not]
  omega

theorem expired_eq_true_iff (expireTime now t : ℤ) :
    expired expireTime now t = true ↔ t + expireTime < now := by
  unfold expired
  rw [decide_eq_true_eq]
  omega

/-! ## The operations -/

/-- The two errors of `validateNonce`. -/
inductive NonceError
  | doesNotExist
  | hasExpired
  deriving DecidableEq, Repr

/-- The texts of the errors of `validateNonce`. -/
def NonceError.text : NonceError → String
  | .doesNotExist => "Nonce provided does not exist"
  | .hasExpired => "Nonce has expired"

/-- The first half of `validateNonce`: the lookup under the read lock and the
test of the issuing time. -/
def lookupNonce (expireTime now : ℤ) (nonces : NonceTable) (nonce : Nonce) :
    Except NonceError Unit :=
  match nonces.lookup nonce with
  | none => .error .doesNotExist
  | some t => if expired expireTime now t then .error .hasExpired else .ok ()

/-- `validateNonce`: the lookup, then the delete under the write lock. -/
def validateNonce (expireTime now : ℤ) (nonces : NonceTable) (nonce : Nonce) :
    Except NonceError Unit × NonceTable :=
  match lookupNonce expireTime now nonces nonce with
  | .error e => (.error e, nonces)
  | .ok () => (.ok (), nonces.erase nonce)

/-- One `rand.Read(byt)`: what the buffer holds afterwards, and the returned
count and error.  The buffer is made with `NonceSize` bytes and keeps its
length. -/
structure RandRead where
  byt : Nonce
  n : ℕ
  err : Option String
  length_byt : byt.length = nonceSize

/-- The error of a bad entropy read. -/
def entropyError (n : ℕ) (err : Option String) : String :=
  "Invalid entropy read (size: " ++ toString n ++ ", error: " ++ err.getD "<nil>" ++ ")"

/-- `handleNonce`, given what the successive reads of the random source return;
`none` while the loop has not ended. -/
def handleNonce (now : ℤ) : List RandRead → NonceTable → Option (Except String Nonce × NonceTable)
  | [], _ => none
  | r :: rs, nonces =>
    if r.err.isSome ∨ r.n ≠ nonceSize then
      some (.error (entropyError r.n r.err), nonces)
    else if (nonces.lookup r.byt).isSome then
      handleNonce now rs nonces
    else
      some (.ok r.byt, nonces.insert r.byt now)

/-- One iteration of the loop of `expireNonces`, at the entry of `n`. -/
def sweepEntry (expireTime now : ℤ) (nonces : NonceTable) (n : Nonce) : NonceTable :=
  match nonces.lookup n with
  | none => nonces
  | some t => if expired expireTime now t then nonces.erase n else nonces

/-! ## One specification lemma for each operation -/

/-- The lookup passes exactly on an entry that has not expired. -/
theorem lookupNonce_ok_iff (expireTime now : ℤ) (nonces : NonceTable) (n : Nonce) :
    lookupNonce expireTime now nonces n = .ok () ↔
      ∃ t, nonces.lookup n = some t ∧ now ≤ t + expireTime := by
  unfold lookupNonce
  cases h : nonces.lookup n with
  | none => simp
  | some t =>
    by_cases he : expired expireTime now t = true
    · have hlt := (expired_eq_true_iff _ _ _).mp he
      simp [he, hlt]
    · rw [Bool.not_eq_true] at he
      have hle := (expired_eq_false_iff _ _ _).mp he
      simp [he, hle]

/-- `validateNonce` answers what its lookup answers. -/
theorem validateNonce_fst (expireTime now : ℤ) (nonces : NonceTable) (n : Nonce) :
    (validateNonce expireTime now nonces n).1 = lookupNonce expireTime now nonces n := by
  unfold validateNonce
  cases h : lookupNonce expireTime now nonces n with
  | error e => rfl
  | ok u => rfl

/-- A rejected nonce leaves the table as it is. -/
theorem validateNonce_snd_of_ne {expireTime now : ℤ} {nonces : NonceTable} {n : Nonce}
    (h : (validateNonce expireTime now nonces n).1 ≠ .ok ()) :
    (validateNonce expireTime now nonces n).2 = nonces := by
  rw [validateNonce_fst] at h
  unfold validateNonce
  cases hl : lookupNonce expireTime now nonces n with
  | error e => rfl
  | ok u => exact absurd hl h

/-- An accepted nonce is deleted, and nothing else is. -/
theorem validateNonce_snd_of_eq {expireTime now : ℤ} {nonces : NonceTable} {n : Nonce}
    (h : (validateNonce expireTime now nonces n).1 = .ok ()) :
    (validateNonce expireTime now nonces n).2 = nonces.erase n := by
  rw [validateNonce_fst] at h
  unfold validateNonce
  rw [h]

/-- `handleNonce` either leaves the table alone or inserts, at the current time,
a nonce of the right length that was not a key. -/
theorem handleNonce_cases {now : ℤ} {reads : List RandRead} {nonces nonces' : NonceTable}
    {r : Except String Nonce} (h : handleNonce now reads nonces = some (r, nonces')) :
    (∃ e, r = .error e ∧ nonces' = nonces) ∨
    (∃ n, r = .ok n ∧ n.length = nonceSize ∧ nonces.lookup n = none ∧
      nonces' = nonces.insert n now) := by
  induction reads with
  | nil => cases h
  | cons rd rds ih =>
    unfold handleNonce at h
    split_ifs at h with herr hkey
    · cases h
      exact Or.inl ⟨_, rfl, rfl⟩
    · exact ih h
    · cases h
      refine Or.inr ⟨rd.byt, rfl, rd.length_byt, ?_, rfl⟩
      rwa [Bool.not_eq_true, Option.isSome_eq_false_iff, Option.isNone_iff_eq_none] at hkey

/-- A sweep step deletes its own entry when that has expired, and does nothing
otherwise. -/
theorem sweepEntry_cases (expireTime now : ℤ) (nonces : NonceTable) (n : Nonce) :
    sweepEntry expireTime now nonces n = nonces ∨
    (∃ t, nonces.lookup n = some t ∧ t + expireTime < now ∧
      sweepEntry expireTime now nonces n = nonces.erase n) := by
  unfold sweepEntry
  cases h : nonces.lookup n with
  | none => exact Or.inl rfl
  | some t =>
    by_cases he : expired expireTime now t = true
    · refine Or.inr ⟨t, rfl, (expired_eq_true_iff _ _ _).mp he, ?_⟩
      simp only [he, if_true]
    · refine Or.inl ?_
      simp only [he]
      rfl

/-! ## Runs and their history -/

/-- A completed operation on the table, with the time it happens at. -/
inductive NonceOp
  | issue (now : ℤ) (reads : List RandRead)
  | validate (now : ℤ) (n : Nonce)
  | sweep (now : ℤ) (n : Nonce)

/-- The time of an operation. -/
def NonceOp.time : NonceOp → ℤ
  | .issue now _ => now
  | .validate now _ => now
  | .sweep now _ => now

/-- What a client can observe of the table. -/
inductive NonceEvent
  | issued (n : Nonce) (t : ℤ)
  | accepted (n : Nonce)
  deriving DecidableEq

/-- The table together with the history of events, newest first. -/
structure NonceState where
  nonces : NonceTable
  history : List NonceEvent

/-- The server starts with an empty table. -/
def NonceState.init : NonceState := ⟨∅, []⟩

/-- One completed operation. -/
def nonceStep (expireTime : ℤ) (s : NonceState) : NonceOp → NonceState
  | .issue now reads =>
    match handleNonce now reads s.nonces with
    | some (.ok n, nonces) => ⟨nonces, .issued n now :: s.history⟩
    | some (.error _, nonces) => ⟨nonces, s.history⟩
    | none => s
  | .validate now n =>
    match validateNonce expireTime now s.nonces n with
    | (.ok (), nonces) => ⟨nonces, .accepted n :: s.history⟩
    | (.error _, nonces) => ⟨nonces, s.history⟩
  | .sweep now n => ⟨sweepEntry expireTime now s.nonces n, s.history⟩

/-- A sequence of completed operations from the empty table. -/
def nonceRun (expireTime : ℤ) (ops : List NonceOp) : NonceState :=
  ops.foldl (nonceStep expireTime) NonceState.init

/-- What one operation can do: nothing, an issuing of an absent nonce, an
acceptance of a live entry, or the removal of an expired entry. -/
theorem nonceStep_cases (expireTime : ℤ) (s : NonceState) (op : NonceOp) :
    nonceStep expireTime s op = s ∨
    (∃ n, n.length = nonceSize ∧ s.nonces.lookup n = none ∧
      nonceStep expireTime s op
        = ⟨s.nonces.insert n op.time, .issued n op.time :: s.history⟩) ∨
    (∃ n, nonceStep expireTime s op = ⟨s.nonces.erase n, .accepted n :: s.history⟩) ∨
    (∃ n t, s.nonces.lookup n = some t ∧ t + expireTime < op.time ∧
      nonceStep expireTime s op = ⟨s.nonces.erase n, s.history⟩) := by
  cases op with
  | issue now reads =>
    cases h : handleNonce now reads s.nonces with
    | none =>
      left
      simp only [nonceStep, h]
    | some p =>
      obtain ⟨r, nonces⟩ := p
      rcases handleNonce_cases h with ⟨e, rfl, rfl⟩ | ⟨n, rfl, hlen, hnone, rfl⟩
      · left
        simp only [nonceStep, h]
      · right; left
        refine ⟨n, hlen, hnone, ?_⟩
        simp only [nonceStep, h, NonceOp.time]
  | validate now n =>
    by_cases h : (validateNonce expireTime now s.nonces n).1 = .ok ()
    · right; right; left
      refine ⟨n, ?_⟩
      have hp : validateNonce expireTime now s.nonces n = (.ok (), s.nonces.erase n) :=
        Prod.ext h (validateNonce_snd_of_eq h)
      simp only [nonceStep, hp]
    · left
      have hs := validateNonce_snd_of_ne h
      cases hp : validateNonce expireTime now s.nonces n with
      | mk r nonces =>
        rw [hp] at h hs
        cases r with
        | ok u => exact absurd rfl h
        | error e =>
          simp only at hs
          simp only [nonceStep, hp, hs]
  | sweep now n =>
    rcases sweepEntry_cases expireTime now s.nonces n with h | ⟨t, ht, hlt, h⟩
    · left
      simp only [nonceStep, h]
    · right; right; right
      refine ⟨n, t, ht, hlt, ?_⟩
      simp only [nonceStep, h]

/-! ## The set of live nonces -/

/-- The issuing of `n` at time `t` is in the history, and `n` has not been
accepted since. -/
def Unconsumed (history : List NonceEvent) (n : Nonce) (t : ℤ) : Prop :=
  ∃ newer older, history = newer ++ .issued n t :: older ∧ .accepted n ∉ newer

/-- `n` is live at time `T`: it was issued at some `t` with `T ≤ t + expireTime`
and has not been accepted since that issuing. -/
def Live (expireTime T : ℤ) (history : List NonceEvent) (n : Nonce) : Prop :=
  ∃ t, Unconsumed history n t ∧ T ≤ t + expireTime

/-- An issuing is unconsumed after one more event if it is that event, or if it
was unconsumed before and the event is not its acceptance. -/
theorem unconsumed_cons_iff (e : NonceEvent) (history : List NonceEvent) (n : Nonce) (t : ℤ) :
    Unconsumed (e :: history) n t ↔
      e = .issued n t ∨ (e ≠ .accepted n ∧ Unconsumed history n t) := by
  constructor
  · rintro ⟨newer, older, heq, hnot⟩
    cases newer with
    | nil =>
      simp only [List.nil_append, List.cons.injEq] at heq
      exact Or.inl heq.1
    | cons e' newer =>
      simp only [List.cons_append, List.cons.injEq] at heq
      obtain ⟨rfl, rfl⟩ := heq
      rw [List.mem_cons, not_or] at hnot
      exact Or.inr ⟨fun h => hnot.1 h.symm, newer, older, rfl, hnot.2⟩
  · rintro (rfl | ⟨hne, newer, older, rfl, hnot⟩)
    · exact ⟨[], history, rfl, List.not_mem_nil⟩
    · refine ⟨e :: newer, older, rfl, ?_⟩
      rw [List.mem_cons, not_or]
      exact ⟨fun h => hne h.symm, hnot⟩

theorem not_unconsumed_nil (n : Nonce) (t : ℤ) : ¬ Unconsumed [] n t := by
  rintro ⟨newer, older, heq, -⟩
  cases newer <;> cases heq

/-- **The refinement relation** between the table and the history, at a time
`last` that no past operation exceeds. -/
structure Refines (expireTime last : ℤ) (s : NonceState) : Prop where
  /-- Every entry stems from an unconsumed issuing at that time. -/
  sound : ∀ n t, s.nonces.lookup n = some t → Unconsumed s.history n t
  /-- Every unconsumed issuing has expired, or the table has an entry at least as
  young. -/
  complete : ∀ n t, Unconsumed s.history n t →
    t + expireTime < last ∨ ∃ t', t ≤ t' ∧ s.nonces.lookup n = some t'
  /-- No issuing lies in the future. -/
  past : ∀ n t, Unconsumed s.history n t → t ≤ last
  /-- Every key has the length of a nonce. -/
  size : ∀ n, n ∈ s.nonces → n.length = nonceSize

theorem refines_init (expireTime last : ℤ) : Refines expireTime last NonceState.init where
  sound := by
    intro n t h
    simp [NonceState.init] at h
  complete := fun n t h => absurd h (not_unconsumed_nil n t)
  past := fun n t h => absurd h (not_unconsumed_nil n t)
  size := fun n h => absurd h (Finmap.notMem_empty (a := n))

/-- Time may pass without breaking the relation. -/
theorem Refines.mono {expireTime last last' : ℤ} {s : NonceState}
    (h : Refines expireTime last s) (hle : last ≤ last') : Refines expireTime last' s where
  sound := h.sound
  complete := by
    intro n t hu
    rcases h.complete n t hu with hlt | hex
    · exact Or.inl (by omega)
    · exact Or.inr hex
  past := fun n t hu => le_trans (h.past n t hu) hle
  size := h.size

/-- Issuing an absent nonce keeps the relation. -/
theorem Refines.issue {expireTime last : ℤ} {s : NonceState} {n : Nonce}
    (h : Refines expireTime last s) (hlen : n.length = nonceSize) :
    Refines expireTime last ⟨s.nonces.insert n last, .issued n last :: s.history⟩ where
  sound := by
    intro m t hm
    rw [unconsumed_cons_iff]
    by_cases hmn : m = n
    · subst hmn
      rw [Finmap.lookup_insert] at hm
      cases hm
      exact Or.inl rfl
    · rw [Finmap.lookup_insert_of_ne _ hmn] at hm
      exact Or.inr ⟨by simp, h.sound m t hm⟩
  complete := by
    intro m t hu
    rw [unconsumed_cons_iff] at hu
    by_cases hmn : m = n
    · -- the new entry is at least as young as every issuing so far
      subst hmn
      refine Or.inr ⟨last, ?_, Finmap.lookup_insert _⟩
      rcases hu with heq | ⟨-, hu⟩
      · cases heq
        exact le_refl _
      · exact h.past m t hu
    · have hu' : Unconsumed s.history m t := by
        rcases hu with heq | ⟨-, hu⟩
        · cases heq
          exact absurd rfl hmn
        · exact hu
      rw [Finmap.lookup_insert_of_ne _ hmn]
      exact h.complete m t hu'
  past := by
    intro m t hu
    rw [unconsumed_cons_iff] at hu
    rcases hu with heq | ⟨-, hu⟩
    · cases heq
      exact le_refl _
    · exact h.past m t hu
  size := by
    intro m hm
    rw [Finmap.mem_insert] at hm
    rcases hm with rfl | hm
    · exact hlen
    · exact h.size m hm

/-- Accepting a nonce keeps the relation: its entry and all its issuings go
together. -/
theorem Refines.accept {expireTime last : ℤ} {s : NonceState} {n : Nonce}
    (h : Refines expireTime last s) :
    Refines expireTime last ⟨s.nonces.erase n, .accepted n :: s.history⟩ where
  sound := by
    intro m t hm
    by_cases hmn : m = n
    · subst hmn
      rw [Finmap.lookup_erase] at hm
      cases hm
    · rw [Finmap.lookup_erase_ne hmn] at hm
      rw [unconsumed_cons_iff]
      refine Or.inr ⟨fun he => hmn ?_, h.sound m t hm⟩
      cases he
      rfl
  complete := by
    intro m t hu
    rw [unconsumed_cons_iff] at hu
    rcases hu with heq | ⟨hne, hu⟩
    · cases heq
    · have hmn : m ≠ n := fun he => hne (he ▸ rfl)
      rw [Finmap.lookup_erase_ne hmn]
      exact h.complete m t hu
  past := by
    intro m t hu
    rw [unconsumed_cons_iff] at hu
    rcases hu with heq | ⟨-, hu⟩
    · cases heq
    · exact h.past m t hu
  size := by
    intro m hm
    rw [Finmap.mem_erase] at hm
    exact h.size m hm.2

/-- Removing an expired entry keeps the relation: every issuing it stood for has
expired as well. -/
theorem Refines.sweep {expireTime last : ℤ} {s : NonceState} {n : Nonce} {t₀ : ℤ}
    (h : Refines expireTime last s) (hn : s.nonces.lookup n = some t₀)
    (hexp : t₀ + expireTime < last) :
    Refines expireTime last ⟨s.nonces.erase n, s.history⟩ where
  sound := by
    intro m t hm
    by_cases hmn : m = n
    · subst hmn
      rw [Finmap.lookup_erase] at hm
      cases hm
    · rw [Finmap.lookup_erase_ne hmn] at hm
      exact h.sound m t hm
  complete := by
    intro m t hu
    by_cases hmn : m = n
    · subst hmn
      -- the entry was the youngest issuing, so the older ones have expired with it
      rcases h.complete m t hu with hlt | ⟨t', hle, ht'⟩
      · exact Or.inl hlt
      · rw [hn] at ht'
        cases ht'
        exact Or.inl (by omega)
    · rw [Finmap.lookup_erase_ne hmn]
      exact h.complete m t hu
  past := h.past
  size := by
    intro m hm
    rw [Finmap.mem_erase] at hm
    exact h.size m hm.2

/-- **One step.**  An operation that does not go back in time keeps the
relation. -/
theorem Refines.step {expireTime last : ℤ} {s : NonceState} (h : Refines expireTime last s)
    (op : NonceOp) (hle : last ≤ op.time) :
    Refines expireTime op.time (nonceStep expireTime s op) := by
  have h' := h.mono hle
  rcases nonceStep_cases expireTime s op with heq | ⟨n, hlen, -, heq⟩ | ⟨n, heq⟩ |
    ⟨n, t, ht, hlt, heq⟩
  · rw [heq]
    exact h'
  · rw [heq]
    exact h'.issue hlen
  · rw [heq]
    exact h'.accept
  · rw [heq]
    exact h'.sweep ht hlt

/-- **Every run.**  Operations at nondecreasing times keep the relation, up to
any later time. -/
theorem Refines.foldl {expireTime last T : ℤ} {s : NonceState} (h : Refines expireTime last s)
    (ops : List NonceOp) (hops : (last :: (ops.map NonceOp.time ++ [T])).Pairwise (· ≤ ·)) :
    Refines expireTime T (ops.foldl (nonceStep expireTime) s) := by
  induction ops generalizing s last with
  | nil =>
    simp only [List.map_nil, List.nil_append, List.pairwise_cons, List.mem_singleton] at hops
    exact h.mono (hops.1 T rfl)
  | cons op ops ih =>
    rw [List.map_cons, List.cons_append, List.pairwise_cons] at hops
    rw [List.foldl_cons]
    exact ih (h.step op (hops.1 _ List.mem_cons_self)) hops.2

/-- The table of a run refines its history. -/
theorem refines_nonceRun (expireTime T : ℤ) (ops : List NonceOp)
    (hops : (ops.map NonceOp.time ++ [T]).Pairwise (· ≤ ·)) :
    Refines expireTime T (nonceRun expireTime ops) := by
  cases ops with
  | nil => exact refines_init expireTime T
  | cons op ops =>
    have hstart : (op.time :: ((op :: ops).map NonceOp.time ++ [T])).Pairwise (· ≤ ·) := by
      rw [List.pairwise_cons]
      refine ⟨fun t ht => ?_, hops⟩
      rw [List.map_cons, List.cons_append, List.mem_cons] at ht
      rcases ht with rfl | ht
      · exact le_refl _
      · exact (List.pairwise_cons.mp hops).1 t ht
    exact (refines_init expireTime op.time).foldl (op :: ops) hstart

/-- A table that refines its history accepts exactly the live nonces. -/
theorem Refines.lookup_ok_iff {expireTime T : ℤ} {s : NonceState} (h : Refines expireTime T s)
    (n : Nonce) :
    lookupNonce expireTime T s.nonces n = .ok () ↔ Live expireTime T s.history n := by
  rw [lookupNonce_ok_iff]
  constructor
  · rintro ⟨t, ht, hle⟩
    exact ⟨t, h.sound n t ht, hle⟩
  · rintro ⟨t, hu, hle⟩
    rcases h.complete n t hu with hlt | ⟨t', htt', ht'⟩
    · omega
    · exact ⟨t', ht', by omega⟩

/-- A sweep step at time `now` changes the answer for no nonce, at `now` or
later. -/
theorem lookupNonce_sweepEntry {expireTime now T : ℤ} (hle : now ≤ T) (nonces : NonceTable)
    (m n : Nonce) :
    lookupNonce expireTime T (sweepEntry expireTime now nonces m) n = .ok () ↔
      lookupNonce expireTime T nonces n = .ok () := by
  rcases sweepEntry_cases expireTime now nonces m with heq | ⟨t, ht, hlt, heq⟩
  · rw [heq]
  · rw [heq, lookupNonce_ok_iff, lookupNonce_ok_iff]
    by_cases hnm : n = m
    · subst hnm
      rw [Finmap.lookup_erase, ht]
      constructor
      · rintro ⟨t', ht', -⟩
        cases ht'
      · rintro ⟨t', ht', hle'⟩
        cases ht'
        omega
    · rw [Finmap.lookup_erase_ne hnm]

/-! ## The main theorem -/

/-- **The nonce table refines the set of live nonces.**  After any sequence of
completed operations at nondecreasing times, `validateNonce n` at a time `T` that
none of them exceeds accepts exactly when `n` is live; a sweep step at `T` removes
no nonce that would still be accepted then or later; a rejected validation
changes nothing; and every key of the table has `NonceSize` bytes. -/
theorem validateNonce_iff_live (expireTime T : ℤ) (ops : List NonceOp)
    (hops : (ops.map NonceOp.time ++ [T]).Pairwise (· ≤ ·)) :
    (∀ n, (validateNonce expireTime T (nonceRun expireTime ops).nonces n).1 = .ok () ↔
      Live expireTime T (nonceRun expireTime ops).history n) ∧
    (∀ m n T', T ≤ T' →
      ((validateNonce expireTime T'
          (sweepEntry expireTime T (nonceRun expireTime ops).nonces m) n).1 = .ok () ↔
        (validateNonce expireTime T' (nonceRun expireTime ops).nonces n).1 = .ok ())) ∧
    (∀ n, (validateNonce expireTime T (nonceRun expireTime ops).nonces n).1 ≠ .ok () →
      (validateNonce expireTime T (nonceRun expireTime ops).nonces n).2
        = (nonceRun expireTime ops).nonces) ∧
    (∀ n ∈ (nonceRun expireTime ops).nonces, n.length = nonceSize) := by
  have href := refines_nonceRun expireTime T ops hops
  refine ⟨fun n => ?_, fun m n T' hT => ?_, fun n h => validateNonce_snd_of_ne h, href.size⟩
  · rw [validateNonce_fst]
    exact href.lookup_ok_iff n
  · rw [validateNonce_fst, validateNonce_fst]
    exact lookupNonce_sweepEntry hT _ m n

/-- As many zero bytes as a nonce has. -/
theorem length_zeroBytes : (List.replicate nonceSize (0 : UInt8)).length = nonceSize :=
  List.length_replicate

/-- A random read that fills the buffer with zeros. -/
def zeroRead : RandRead := ⟨List.replicate nonceSize 0, nonceSize, none, length_zeroBytes⟩

/-- A nonce issued at time `0` and swept over at time `20` is still accepted at the
very end of its lifetime. -/
theorem validateNonce_zeroRead_at_expiry :
    (([NonceOp.issue 0 [zeroRead], .sweep 20 zeroRead.byt].map NonceOp.time ++ [30]).Pairwise
      (· ≤ ·)) ∧
    (validateNonce 30 30
      (nonceRun 30 [.issue 0 [zeroRead], .sweep 20 zeroRead.byt]).nonces zeroRead.byt).1
        = .ok () := by
  have htimes : ([NonceOp.issue 0 [zeroRead], .sweep 20 zeroRead.byt].map NonceOp.time
      ++ [30]).Pairwise (· ≤ ·) := by decide
  refine ⟨htimes, ((validateNonce_iff_live 30 30 _ htimes).1 zeroRead.byt).mpr ?_⟩
  exact ⟨0, ⟨[], [], by decide, List.not_mem_nil⟩, by decide⟩

end Border
