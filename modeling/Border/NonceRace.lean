/-
# Concurrent nonce validation

`validateNonce` looks a nonce up under the read lock, releases it, and deletes the
nonce later under the write lock (`pkg/controlserver/controlserver.go`).  Here
these critical sections are steps of their own, and so are the two sections of
`handleNonce` and of an iteration of `expireNonces`; any number of calls
interleave them.

Two calls that both look a nonce up before either deletes it are both accepted
(`raceRun_accepts_twice`).  A run keeps a nonce single-use when no lookup of it
passes while an earlier passing lookup of it waits for its delete
(`acceptedAtMostOnce_of_noOverlap`), and every step that breaks this condition
can be continued to a double acceptance.
-/
import Border.Transition
import Border.NonceTable

namespace Border

open Transition

/-! ## The critical sections -/

/-- Where a `validateNonce` call stands. -/
inductive ValidatorPhase
  | calling
  /-- The lookup has passed; the delete is still to come. -/
  | found (n : Nonce)
  | returned (r : Except NonceError Unit)

/-- Where a `handleNonce` call stands. -/
inductive IssuerPhase
  | drawing
  /-- The drawn bytes were not a key; the insert is still to come. -/
  | drawn (n : Nonce)
  | returned (n : Nonce)

/-- Where a sweep of `expireNonces` stands. -/
inductive SweeperPhase
  | ranging
  /-- The entry of `n` was seen to have expired; the delete is still to come. -/
  | seen (n : Nonce)

/-- The table, every call in flight, and the history of events, newest first. -/
structure RaceState where
  nonces : NonceTable
  validator : ℕ → ValidatorPhase
  issuer : ℕ → IssuerPhase
  sweeper : ℕ → SweeperPhase
  history : List NonceEvent

/-- An empty table and no call begun. -/
def RaceState.init : RaceState where
  nonces := ∅
  validator := fun _ => .calling
  issuer := fun _ => .drawing
  sweeper := fun _ => .ranging
  history := []

/-- One critical section of one call. -/
inductive RaceAct
  | lookup (v : ℕ) (n : Nonce) (now : ℤ)
  | delete (v : ℕ)
  | draw (h : ℕ) (r : RandRead)
  | insert (h : ℕ) (now : ℤ)
  | examine (w : ℕ) (n : Nonce) (now : ℤ)
  | prune (w : ℕ)

/-- Execute one critical section; `none` when the call is not at it. -/
def raceStep (expireTime : ℤ) (s : RaceState) : RaceAct → Option RaceState
  | .lookup v n now =>
    match s.validator v with
    | .calling =>
      match lookupNonce expireTime now s.nonces n with
      | .ok () => some { s with validator := Function.update s.validator v (.found n) }
      | .error e =>
        some { s with validator := Function.update s.validator v (.returned (.error e)) }
    | _ => none
  | .delete v =>
    match s.validator v with
    | .found n =>
      some { s with
        nonces := s.nonces.erase n
        validator := Function.update s.validator v (.returned (.ok ()))
        history := .accepted n :: s.history }
    | _ => none
  | .draw h r =>
    match s.issuer h with
    | .drawing =>
      -- a key is drawn again: the loop of `handleNonce` goes on
      if (s.nonces.lookup r.byt).isSome then some s
      else some { s with issuer := Function.update s.issuer h (.drawn r.byt) }
    | _ => none
  | .insert h now =>
    match s.issuer h with
    | .drawn n =>
      some { s with
        nonces := s.nonces.insert n now
        issuer := Function.update s.issuer h (.returned n)
        history := .issued n now :: s.history }
    | _ => none
  | .examine w n now =>
    match s.sweeper w, s.nonces.lookup n with
    | .ranging, some t =>
      if expired expireTime now t then
        some { s with sweeper := Function.update s.sweeper w (.seen n) }
      else some s
    | _, _ => none
  | .prune w =>
    match s.sweeper w with
    | .seen n =>
      some { s with
        nonces := s.nonces.erase n
        sweeper := Function.update s.sweeper w .ranging }
    | _ => none

/-! ## Acceptances between two issuings -/

/-- The number of acceptances of `n` since its last issuing, in a history that
has its newest event first. -/
def acceptsSinceIssue (n : Nonce) : List NonceEvent → ℕ
  | [] => 0
  | .issued m _ :: older => if m = n then 0 else acceptsSinceIssue n older
  | .accepted m :: older =>
    if m = n then acceptsSinceIssue n older + 1 else acceptsSinceIssue n older

@[simp] theorem acceptsSinceIssue_accepted_self (n : Nonce) (older : List NonceEvent) :
    acceptsSinceIssue n (.accepted n :: older) = acceptsSinceIssue n older + 1 := by
  simp [acceptsSinceIssue]

theorem acceptsSinceIssue_accepted_ne {m n : Nonce} (h : m ≠ n) (older : List NonceEvent) :
    acceptsSinceIssue n (.accepted m :: older) = acceptsSinceIssue n older := by
  simp [acceptsSinceIssue, h]

@[simp] theorem acceptsSinceIssue_issued_self (n : Nonce) (t : ℤ) (older : List NonceEvent) :
    acceptsSinceIssue n (.issued n t :: older) = 0 := by
  simp [acceptsSinceIssue]

theorem acceptsSinceIssue_issued_ne {m n : Nonce} (h : m ≠ n) (t : ℤ)
    (older : List NonceEvent) :
    acceptsSinceIssue n (.issued m t :: older) = acceptsSinceIssue n older := by
  simp [acceptsSinceIssue, h]

/-- Every nonce value has been accepted at most once since its last issuing. -/
def AcceptedAtMostOnce (s : RaceState) : Prop :=
  ∀ n, acceptsSinceIssue n s.history ≤ 1

/-- A lookup of `n` passes only when no other call that found `n` has yet to delete
it. -/
def NoOverlap (expireTime : ℤ) (s : RaceState) : RaceAct → Prop
  | .lookup _ n now =>
    lookupNonce expireTime now s.nonces n = .ok () → ∀ u, s.validator u ≠ .found n
  | _ => True

/-! ## What one section can do -/

/-- The effect of one section on the table, the validators and the history: a
lookup that passes or fails, a delete, an insert, the removal of an entry, or
nothing. -/
theorem raceStep_cases {expireTime : ℤ} {s s' : RaceState} {a : RaceAct}
    (h : raceStep expireTime s a = some s') :
    (∃ v n now, a = .lookup v n now ∧ s.validator v = .calling ∧ s'.nonces = s.nonces ∧
      s'.history = s.history ∧
      ((lookupNonce expireTime now s.nonces n = .ok () ∧
          s'.validator = Function.update s.validator v (.found n)) ∨
        ∃ e, s'.validator = Function.update s.validator v (.returned (.error e)))) ∨
    (∃ v n, a = .delete v ∧ s.validator v = .found n ∧ s'.nonces = s.nonces.erase n ∧
      s'.validator = Function.update s.validator v (.returned (.ok ())) ∧
      s'.history = .accepted n :: s.history) ∨
    (∃ n t, s'.nonces = s.nonces.insert n t ∧ s'.validator = s.validator ∧
      s'.history = .issued n t :: s.history) ∨
    (∃ n, s'.nonces = s.nonces.erase n ∧ s'.validator = s.validator ∧
      s'.history = s.history) ∨
    (s'.nonces = s.nonces ∧ s'.validator = s.validator ∧ s'.history = s.history) := by
  cases a with
  | lookup v n now =>
    left
    simp only [raceStep] at h
    split at h
    · rename_i hv
      split at h
      · rename_i hok
        cases h
        exact ⟨v, n, now, rfl, hv, rfl, rfl, Or.inl ⟨hok, rfl⟩⟩
      · rename_i e herr
        cases h
        exact ⟨v, n, now, rfl, hv, rfl, rfl, Or.inr ⟨e, rfl⟩⟩
    · cases h
  | delete v =>
    right; left
    simp only [raceStep] at h
    split at h
    · rename_i n hv
      cases h
      exact ⟨v, n, rfl, hv, rfl, rfl, rfl⟩
    · cases h
  | draw i r =>
    right; right; right; right
    simp only [raceStep] at h
    split at h
    · split_ifs at h
      · cases h
        exact ⟨rfl, rfl, rfl⟩
      · cases h
        exact ⟨rfl, rfl, rfl⟩
    · cases h
  | insert i now =>
    right; right; left
    simp only [raceStep] at h
    split at h
    · rename_i n hi
      cases h
      exact ⟨n, now, rfl, rfl, rfl⟩
    · cases h
  | examine w n now =>
    right; right; right; right
    simp only [raceStep] at h
    split at h
    · split_ifs at h
      · cases h
        exact ⟨rfl, rfl, rfl⟩
      · cases h
        exact ⟨rfl, rfl, rfl⟩
    · cases h
  | prune w =>
    right; right; right; left
    simp only [raceStep] at h
    split at h
    · rename_i n hw
      cases h
      exact ⟨n, rfl, rfl, rfl⟩
    · cases h

/-! ## The invariant -/

/-- At most one call waits to delete a given nonce, and once a nonce has been
accepted since its last issuing, it is neither in the table nor waited for. -/
structure SingleUse (s : RaceState) : Prop where
  atMostOnce : AcceptedAtMostOnce s
  onePending : ∀ u v n, s.validator u = .found n → s.validator v = .found n → u = v
  consumed : ∀ n, acceptsSinceIssue n s.history = 1 →
    s.nonces.lookup n = none ∧ ∀ v, s.validator v ≠ .found n

theorem singleUse_init : SingleUse RaceState.init where
  atMostOnce := fun n => Nat.zero_le 1
  onePending := by
    intro u v n hu
    cases hu
  consumed := by
    intro n hn
    cases hn

/-- A call that is not at the phase `found` after a step either moved there by this
step or was there before. -/
theorem update_found {f : ℕ → ValidatorPhase} {v u : ℕ} {p : ValidatorPhase} {n : Nonce}
    (hp : p ≠ .found n) (h : Function.update f v p u = .found n) : f u = .found n := by
  by_cases huv : u = v
  · subst huv
    rw [Function.update_self] at h
    exact absurd h hp
  · rwa [Function.update_of_ne huv] at h

/-- The deleting call is the only one that waited for its nonce. -/
theorem SingleUse.delete {s s' : RaceState} {v : ℕ} {n : Nonce} (hs : SingleUse s)
    (hv : s.validator v = .found n) (htab : s'.nonces = s.nonces.erase n)
    (hval : s'.validator = Function.update s.validator v (.returned (.ok ())))
    (hhist : s'.history = .accepted n :: s.history) : SingleUse s' := by
  -- a nonce that some call has found has not been accepted yet
  have hzero : acceptsSinceIssue n s.history = 0 := by
    have hle := hs.atMostOnce n
    by_contra hne
    exact (hs.consumed n (by omega)).2 v hv
  have hback : ∀ u m, s'.validator u = .found m → s.validator u = .found m := by
    intro u m hu
    rw [hval] at hu
    exact update_found (by simp) hu
  refine ⟨fun m => ?_, fun a b m ha hb => ?_, fun m hm => ?_⟩
  · rw [hhist]
    by_cases hmn : n = m
    · subst hmn
      rw [acceptsSinceIssue_accepted_self, hzero]
    · rw [acceptsSinceIssue_accepted_ne hmn]
      exact hs.atMostOnce m
  · exact hs.onePending a b m (hback a m ha) (hback b m hb)
  · by_cases hmn : n = m
    · subst hmn
      refine ⟨by rw [htab, Finmap.lookup_erase], fun u hu => ?_⟩
      -- the call that deletes was the only one waiting
      have huv : u = v := hs.onePending u v n (hback u n hu) hv
      rw [hval, huv, Function.update_self] at hu
      cases hu
    · rw [hhist, acceptsSinceIssue_accepted_ne hmn] at hm
      obtain ⟨hnone, hno⟩ := hs.consumed m hm
      refine ⟨?_, fun u hu => hno u (hback u m hu)⟩
      rw [htab, Finmap.lookup_erase_ne (fun h => hmn h.symm)]
      exact hnone

/-- A step that leaves the validators alone and adds no acceptance keeps the
invariant when every consumed nonce stays out of the table. -/
theorem SingleUse.frame {s s' : RaceState} (hs : SingleUse s)
    (hval : s'.validator = s.validator)
    (hacc : ∀ n, acceptsSinceIssue n s'.history ≤ acceptsSinceIssue n s.history)
    (htab : ∀ n, acceptsSinceIssue n s'.history = 1 → s.nonces.lookup n = none →
      s'.nonces.lookup n = none) : SingleUse s' := by
  refine ⟨fun n => le_trans (hacc n) (hs.atMostOnce n), ?_, fun n hn => ?_⟩
  · rw [hval]
    exact hs.onePending
  · have hone : acceptsSinceIssue n s.history = 1 := by
      have h1 := hacc n
      have h2 := hs.atMostOnce n
      omega
    obtain ⟨hnone, hno⟩ := hs.consumed n hone
    refine ⟨htab n hn hnone, ?_⟩
    rw [hval]
    exact hno

/-- A lookup that passes without an overlap keeps the invariant. -/
theorem SingleUse.lookup {expireTime now : ℤ} {s s' : RaceState} {v : ℕ} {n : Nonce}
    (hs : SingleUse s) (hok : lookupNonce expireTime now s.nonces n = .ok ())
    (hno : ∀ u, s.validator u ≠ .found n) (htab : s'.nonces = s.nonces)
    (hval : s'.validator = Function.update s.validator v (.found n))
    (hhist : s'.history = s.history) : SingleUse s' := by
  have hfound : ∀ u m, s'.validator u = .found m →
      (u = v ∧ m = n) ∨ (m ≠ n ∧ s.validator u = .found m) := by
    intro u m hu
    rw [hval] at hu
    by_cases huv : u = v
    · subst huv
      rw [Function.update_self] at hu
      cases hu
      exact Or.inl ⟨rfl, rfl⟩
    · rw [Function.update_of_ne huv] at hu
      refine Or.inr ⟨?_, hu⟩
      rintro rfl
      exact hno u hu
  refine ⟨fun m => by rw [hhist]; exact hs.atMostOnce m, fun a b m ha hb => ?_, fun m hm => ?_⟩
  · rcases hfound a m ha with ⟨rfl, rfl⟩ | ⟨hne, ha'⟩
    · rcases hfound b m hb with ⟨rfl, -⟩ | ⟨hne, -⟩
      · rfl
      · exact absurd rfl hne
    · rcases hfound b m hb with ⟨-, rfl⟩ | ⟨-, hb'⟩
      · exact absurd rfl hne
      · exact hs.onePending a b m ha' hb'
  · rw [hhist] at hm
    obtain ⟨hnone, hnov⟩ := hs.consumed m hm
    refine ⟨by rw [htab]; exact hnone, fun u hu => ?_⟩
    rcases hfound u m hu with ⟨-, rfl⟩ | ⟨-, hu'⟩
    · -- a nonce that passes its lookup is in the table
      obtain ⟨t, ht, -⟩ := (lookupNonce_ok_iff _ _ _ _).mp hok
      rw [hnone] at ht
      cases ht
    · exact hnov u hu'

/-- A lookup that fails keeps the invariant. -/
theorem SingleUse.reject {s s' : RaceState} {v : ℕ} {e : NonceError} (hs : SingleUse s)
    (htab : s'.nonces = s.nonces)
    (hval : s'.validator = Function.update s.validator v (.returned (.error e)))
    (hhist : s'.history = s.history) : SingleUse s' := by
  have hback : ∀ u m, s'.validator u = .found m → s.validator u = .found m := by
    intro u m hu
    rw [hval] at hu
    exact update_found (by simp) hu
  refine ⟨fun m => by rw [hhist]; exact hs.atMostOnce m,
    fun a b m ha hb => hs.onePending a b m (hback a m ha) (hback b m hb), fun m hm => ?_⟩
  rw [hhist] at hm
  obtain ⟨hnone, hno⟩ := hs.consumed m hm
  exact ⟨by rw [htab]; exact hnone, fun u hu => hno u (hback u m hu)⟩

/-- **One section.**  Every section that meets the condition keeps the
invariant. -/
theorem SingleUse.step {expireTime : ℤ} {s s' : RaceState} {a : RaceAct} (hs : SingleUse s)
    (hno : NoOverlap expireTime s a) (h : raceStep expireTime s a = some s') :
    SingleUse s' := by
  rcases raceStep_cases h with ⟨v, n, now, rfl, hv, htab, hhist, ⟨hok, hval⟩ | ⟨e, hval⟩⟩ |
    ⟨v, n, rfl, hv, htab, hval, hhist⟩ | ⟨n, t, htab, hval, hhist⟩ | ⟨n, htab, hval, hhist⟩ |
    ⟨htab, hval, hhist⟩
  · exact hs.lookup hok (hno hok) htab hval hhist
  · exact hs.reject htab hval hhist
  · exact hs.delete hv htab hval hhist
  · refine hs.frame hval (fun m => ?_) (fun m hm hnone => ?_)
    · rw [hhist]
      by_cases hnm : n = m
      · subst hnm
        rw [acceptsSinceIssue_issued_self]
        exact Nat.zero_le _
      · rw [acceptsSinceIssue_issued_ne hnm]
    · have hnm : m ≠ n := by
        rintro rfl
        rw [hhist, acceptsSinceIssue_issued_self] at hm
        cases hm
      rw [htab, Finmap.lookup_insert_of_ne _ hnm]
      exact hnone
  · refine hs.frame hval (fun m => by rw [hhist]) (fun m _ hnone => ?_)
    rw [htab]
    by_cases hnm : m = n
    · rw [hnm, Finmap.lookup_erase]
    · rw [Finmap.lookup_erase_ne hnm]
      exact hnone
  · exact hs.frame hval (fun m => by rw [hhist]) (fun m _ hnone => by rw [htab]; exact hnone)

/-! ## The overlap leads to a double acceptance -/

/-- Two calls that wait for the same nonce can both be accepted by their next
sections. -/
theorem accepts_twice_of_two_found {expireTime : ℤ} {s : RaceState} {u v : ℕ} {n : Nonce}
    (huv : u ≠ v) (hu : s.validator u = .found n) (hv : s.validator v = .found n) :
    ∃ s', run (raceStep expireTime) s [.delete u, .delete v] = some s' ∧
      ¬ AcceptedAtMostOnce s' := by
  refine ⟨{ s with
      nonces := (s.nonces.erase n).erase n
      validator := Function.update (Function.update s.validator u (.returned (.ok ()))) v
        (.returned (.ok ()))
      history := .accepted n :: .accepted n :: s.history }, ?_, fun h => ?_⟩
  · have hv' : Function.update s.validator u (.returned (.ok ())) v = .found n := by
      rw [Function.update_of_ne huv.symm]
      exact hv
    simp only [run_cons, raceStep, hu, Option.bind_some, hv', run_nil]
  · have h2 := h n
    simp only [acceptsSinceIssue_accepted_self] at h2
    omega

/-- A lookup that breaks the condition leaves two calls waiting for the same
nonce. -/
theorem two_found_of_overlap {expireTime : ℤ} {s s' : RaceState} {a : RaceAct}
    (hno : ¬ NoOverlap expireTime s a) (h : raceStep expireTime s a = some s') :
    ∃ u v n, u ≠ v ∧ s'.validator u = .found n ∧ s'.validator v = .found n := by
  cases a with
  | lookup v n now =>
    -- the call that waits already, and the one whose lookup passes now
    simp only [NoOverlap, not_forall, not_not] at hno
    obtain ⟨hok, u, hu⟩ := hno
    have huv : u ≠ v := by
      rintro rfl
      simp only [raceStep, hu] at h
      cases h
    simp only [raceStep] at h
    split at h
    · rw [hok] at h
      cases h
      refine ⟨u, v, n, huv, ?_, Function.update_self _ _ _⟩
      show Function.update s.validator v (.found n) u = .found n
      rw [Function.update_of_ne huv]
      exact hu
    · cases h
  | delete v => exact absurd trivial hno
  | draw i r => exact absurd trivial hno
  | insert i now => exact absurd trivial hno
  | examine w n now => exact absurd trivial hno
  | prune w => exact absurd trivial hno

/-! ## The main theorems -/

/-- **Single use without overlap.**  In every run in which no lookup of a nonce
passes while an earlier passing lookup of it waits for its delete, every nonce value
is accepted at most once between two issuings; and every section that breaks this
condition can be continued by two deletes to a second acceptance. -/
theorem acceptedAtMostOnce_of_noOverlap (expireTime : ℤ) (as : List RaceAct) (s : RaceState)
    (hrun : run (raceStep expireTime) RaceState.init as = some s) :
    (Along (raceStep expireTime) (NoOverlap expireTime) RaceState.init as →
      AcceptedAtMostOnce s) ∧
    (∀ a t, raceStep expireTime s a = some t → ¬ NoOverlap expireTime s a →
      ∃ u v t', run (raceStep expireTime) t [.delete u, .delete v] = some t' ∧
        ¬ AcceptedAtMostOnce t') := by
  refine ⟨fun hG => ?_, fun a t hstep hno => ?_⟩
  · have hsingle : SingleUse s :=
      run_invariant_along (fun s a s' hs hno h => hs.step hno h) singleUse_init hG hrun
    exact hsingle.atMostOnce
  · obtain ⟨u, v, n, huv, hu, hv⟩ := two_found_of_overlap hno hstep
    obtain ⟨t', hrun', hbad⟩ := accepts_twice_of_two_found huv hu hv
    exact ⟨u, v, t', hrun', hbad⟩

/-- A nonce is issued and then looked up by one call. -/
def issueThenLookup : List RaceAct :=
  [.draw 0 zeroRead, .insert 0 0, .lookup 0 zeroRead.byt 1]

/-- The condition holds along one issuing and one validation, and the nonce has
been accepted once at its end. -/
theorem acceptedAtMostOnce_single_validation :
    ∃ s, run (raceStep 30) RaceState.init (issueThenLookup ++ [.delete 0]) = some s ∧
      AcceptedAtMostOnce s := by
  refine ⟨_, rfl,
    (acceptedAtMostOnce_of_noOverlap 30 (issueThenLookup ++ [.delete 0]) _ rfl).1 ?_⟩
  refine ⟨trivial, fun s₁ h₁ => ⟨trivial, fun s₂ h₂ => ⟨fun _ u hu => ?_, fun s₃ h₃ =>
    ⟨trivial, fun s₄ h₄ => trivial⟩⟩⟩⟩
  -- no call had begun when the lookup was made
  cases h₁
  cases h₂
  cases hu

/-- **Two lookups before the first delete.**  Both calls are accepted, although
the nonce was issued once. -/
theorem raceRun_accepts_twice :
    ¬ ∀ (expireTime : ℤ) (as : List RaceAct) (s : RaceState),
      run (raceStep expireTime) RaceState.init as = some s → AcceptedAtMostOnce s := by
  intro h
  have hbad := h 30 (issueThenLookup ++ [.lookup 1 zeroRead.byt 2, .delete 0, .delete 1]) _ rfl
    zeroRead.byt
  revert hbad
  decide

end Border
