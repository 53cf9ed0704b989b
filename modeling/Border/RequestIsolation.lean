/-
# Do requests to one endpoint stay apart?

`makeHandlerFunc` (`pkg/controlserver/controlserver.go`) makes one request object for an
endpoint, and every HTTP request to that endpoint goes through it: decrypt the body,
`Unmarshal` it into the object, look up the nonce the object holds, delete that nonce, and
call the handler on the object.  Here each of these is a step, and the steps of any number
of requests interleave with each other and with the rest of the traffic on the nonce table.

* `isolated_of_undisturbed` : in a run in which every `Unmarshal` leaves what it would
  leave in a new object, and nothing changes the object while another request is between
  its `Unmarshal` and its call, every call sees the payload of its own request, and the
  nonce accepted for it is the one in that payload; and the second part of the condition
  cannot be dropped;
* `isolated_replay` : a replayed body rides on the nonce of another request.
-/
import Border.Request
import Border.Transition

namespace Border

open GoJson Transition

/-! ## The steps of a request -/

/-- Why `handleValidateNonce` turned a request away. -/
inductive Rejection
  | invalidRequest (msg : String)
  | couldNotUnmarshal (e : UnmarshalError)
  | invalidNonce (e : NonceError)

/-- The HTTP status of a rejection. -/
def Rejection.status : Rejection → ℕ
  | .invalidRequest _ => 500
  | .couldNotUnmarshal _ => 500
  | .invalidNonce _ => 403

/-- Where an HTTP request stands. -/
inductive RequestPhase (rt : RequestType)
  | arriving
  | decrypted (p : rt.Plain)
  | unmarshalled (p : rt.Plain)
  /-- The lookup of this nonce has passed; the delete is still to come. -/
  | found (p : rt.Plain) (n : Nonce)
  | accepted (p : rt.Plain) (n : Nonce)
  | called
  | rejected (r : Rejection)

/-- A call of the handler: for which request, with which body and accepted nonce, and the
object it was given. -/
structure HandlerCall (rt : RequestType) where
  request : ℕ
  plain : rt.Plain
  accepted : Nonce
  seen : rt.Obj

/-- The endpoint's object, the nonce table, every request, and the calls of the handler,
newest first. -/
structure EndpointState (rt : RequestType) where
  obj : rt.Obj
  nonces : NonceTable
  phase : ℕ → RequestPhase rt
  calls : List (HandlerCall rt)

/-- After `makeHandlerFunc`. -/
def EndpointState.init (rt : RequestType) (nonces : NonceTable) : EndpointState rt where
  obj := rt.new
  nonces := nonces
  phase := fun _ => .arriving
  calls := []

/-- One step of a request, or of something else that touches the nonce table: `issue` is
a `handleNonce`, `sweep` an iteration of `expireNonces`, and `consume` the delete of a
validation at another endpoint.  The handler may change the object it is given: `left` is
what it leaves. -/
inductive EndpointAct (rt : RequestType)
  | decrypt (h : ℕ) (body : Except String rt.Plain)
  | unmarshal (h : ℕ)
  | lookup (h : ℕ) (now : ℤ)
  | delete (h : ℕ)
  | call (h : ℕ) (left : rt.Obj)
  | issue (r : RandRead) (now : ℤ)
  | sweep (n : Nonce) (now : ℤ)
  | consume (n : Nonce)

/-- A request moves to another phase. -/
def EndpointState.move {rt : RequestType} (s : EndpointState rt) (h : ℕ) (phase : RequestPhase rt) :
    EndpointState rt :=
  { s with phase := Function.update s.phase h phase }

theorem EndpointState.move_phase_self {rt : RequestType} (s : EndpointState rt) (h : ℕ)
    (phase : RequestPhase rt) : (s.move h phase).phase h = phase := by
  unfold EndpointState.move
  exact Function.update_self _ _ _

/-- Execute one step; `none` when the request is not at it. -/
def endpointStep {rt : RequestType} (expireTime : ℤ) (s : EndpointState rt) :
    EndpointAct rt → Option (EndpointState rt)
  | .decrypt h body =>
    match s.phase h with
    | .arriving =>
      match body with
      | .ok p => some (s.move h (.decrypted p))
      | .error msg => some (s.move h (.rejected (.invalidRequest msg)))
    | _ => none
  | .unmarshal h =>
    match s.phase h with
    | .decrypted p =>
      let r := rt.unmarshal p s.obj
      match r.2 with
      | none => some ({ s with obj := r.1 }.move h (.unmarshalled p))
      | some e => some ({ s with obj := r.1 }.move h (.rejected (.couldNotUnmarshal e)))
    | _ => none
  | .lookup h now =>
    match s.phase h with
    | .unmarshalled p =>
      -- the nonce is read from the object, whoever wrote it last
      match lookupNonce expireTime now s.nonces (rt.nonce s.obj) with
      | .ok () => some (s.move h (.found p (rt.nonce s.obj)))
      | .error e => some (s.move h (.rejected (.invalidNonce e)))
    | _ => none
  | .delete h =>
    match s.phase h with
    | .found p n => some ({ s with nonces := s.nonces.erase n }.move h (.accepted p n))
    | _ => none
  | .call h left =>
    match s.phase h with
    | .accepted p n =>
      some ({ s with obj := left, calls := ⟨h, p, n, s.obj⟩ :: s.calls }.move h .called)
    | _ => none
  | .issue r now => (handleNonce now [r] s.nonces).map fun issued => { s with nonces := issued.2 }
  | .sweep n now => some { s with nonces := sweepEntry expireTime now s.nonces n }
  | .consume n => some { s with nonces := s.nonces.erase n }

/-! ## What one step can do -/

section Isolation

variable {rt : RequestType}

/-- The request whose step it is. -/
def EndpointAct.request : EndpointAct rt → Option ℕ
  | .decrypt h _ => some h
  | .unmarshal h => some h
  | .lookup h _ => some h
  | .delete h => some h
  | .call h _ => some h
  | _ => none

/-- What a step of a request makes of its phase, of the object and of the calls. -/
inductive Effect (s : EndpointState rt) :
    EndpointAct rt → ℕ → RequestPhase rt → rt.Obj → List (HandlerCall rt) → Prop
  | decrypt {h : ℕ} {p : rt.Plain} :
      Effect s (.decrypt h (.ok p)) h (.decrypted p) s.obj s.calls
  | reject {a : EndpointAct rt} {h : ℕ} {r : Rejection} : a.request = some h →
      Effect s a h (.rejected r) s.obj s.calls
  | unmarshal {h : ℕ} {p : rt.Plain} : s.phase h = .decrypted p →
      (rt.unmarshal p s.obj).2 = none →
      Effect s (.unmarshal h) h (.unmarshalled p) (rt.unmarshal p s.obj).1 s.calls
  | spoil {h : ℕ} {p : rt.Plain} {r : Rejection} : s.phase h = .decrypted p →
      Effect s (.unmarshal h) h (.rejected r) (rt.unmarshal p s.obj).1 s.calls
  | lookup {h : ℕ} {now : ℤ} {p : rt.Plain} : s.phase h = .unmarshalled p →
      Effect s (.lookup h now) h (.found p (rt.nonce s.obj)) s.obj s.calls
  | delete {h : ℕ} {p : rt.Plain} {n : Nonce} : s.phase h = .found p n →
      Effect s (.delete h) h (.accepted p n) s.obj s.calls
  | call {h : ℕ} {left : rt.Obj} {p : rt.Plain} {n : Nonce} : s.phase h = .accepted p n →
      Effect s (.call h left) h .called left (⟨h, p, n, s.obj⟩ :: s.calls)

/-- Either one request moves on, or only the nonce table changes. -/
theorem endpointStep_effect {expireTime : ℤ} {s s' : EndpointState rt} {a : EndpointAct rt}
    (hstep : endpointStep expireTime s a = some s') :
    (∃ nonces, s' = ⟨s.obj, nonces, s.phase, s.calls⟩) ∨
    ∃ h phase obj nonces calls, a.request = some h ∧ Effect s a h phase obj calls ∧
      s' = EndpointState.move ⟨obj, nonces, s.phase, calls⟩ h phase := by
  cases a with
  | decrypt h body =>
    simp only [endpointStep] at hstep
    split at hstep
    next =>
      cases body with
      | ok p => exact Or.inr ⟨h, _, _, _, _, rfl, .decrypt, (Option.some.inj hstep).symm⟩
      | error msg => exact Or.inr ⟨h, _, _, _, _, rfl, .reject rfl, (Option.some.inj hstep).symm⟩
    next => exact absurd hstep (by simp)
  | unmarshal h =>
    simp only [endpointStep] at hstep
    split at hstep
    next p hp =>
      split at hstep
      next hok =>
        exact Or.inr ⟨h, _, _, _, _, rfl, .unmarshal hp hok, (Option.some.inj hstep).symm⟩
      next => exact Or.inr ⟨h, _, _, _, _, rfl, .spoil hp, (Option.some.inj hstep).symm⟩
    next => exact absurd hstep (by simp)
  | lookup h now =>
    simp only [endpointStep] at hstep
    split at hstep
    next p hp =>
      split at hstep
      next => exact Or.inr ⟨h, _, _, _, _, rfl, .lookup hp, (Option.some.inj hstep).symm⟩
      next => exact Or.inr ⟨h, _, _, _, _, rfl, .reject rfl, (Option.some.inj hstep).symm⟩
    next => exact absurd hstep (by simp)
  | delete h =>
    simp only [endpointStep] at hstep
    split at hstep
    next p n hp => exact Or.inr ⟨h, _, _, _, _, rfl, .delete hp, (Option.some.inj hstep).symm⟩
    next => exact absurd hstep (by simp)
  | call h left =>
    simp only [endpointStep] at hstep
    split at hstep
    next p n hp => exact Or.inr ⟨h, _, _, _, _, rfl, .call hp, (Option.some.inj hstep).symm⟩
    next => exact absurd hstep (by simp)
  | issue r now =>
    simp only [endpointStep, Option.map_eq_some_iff] at hstep
    obtain ⟨issued, -, rfl⟩ := hstep
    exact Or.inl ⟨_, rfl⟩
  | sweep n now => exact Or.inl ⟨_, (Option.some.inj hstep).symm⟩
  | consume n => exact Or.inl ⟨_, (Option.some.inj hstep).symm⟩

/-! ## Isolation -/

/-- The handler saw the payload of its own request, and the accepted nonce is the one in
that payload. -/
def HandlerCall.Own (c : HandlerCall rt) : Prop :=
  c.seen = rt.payload c.plain ∧ c.accepted = rt.nonce (rt.payload c.plain)

/-- Every call so far was isolated from the other requests. -/
def Isolated (s : EndpointState rt) : Prop := ∀ c ∈ s.calls, c.Own

/-- Between its `Unmarshal` and its call of the handler. -/
def RequestPhase.InFlight : RequestPhase rt → Prop
  | .unmarshalled _ => True
  | .found _ _ => True
  | .accepted _ _ => True
  | _ => False

/-- Nobody but `h` is in flight, or the object stays as it is. -/
def Keeps (s : EndpointState rt) (h : ℕ) (obj : rt.Obj) : Prop :=
  (∃ g, g ≠ h ∧ (s.phase g).InFlight) → obj = s.obj

/-- What a step may do for the requests to stay apart: an `Unmarshal` that succeeds leaves
what it would leave in a new object, and neither an `Unmarshal` nor a handler changes the
object while another request is in flight. -/
def Undisturbed (s : EndpointState rt) : EndpointAct rt → Prop
  | .unmarshal h => ∀ p, s.phase h = .decrypted p →
      ((rt.unmarshal p s.obj).2 = none → (rt.unmarshal p s.obj).1 = rt.payload p) ∧
        Keeps s h (rt.unmarshal p s.obj).1
  | .call h left => Keeps s h left
  | _ => True

/-- The object holds the payload of a request in flight, and the nonce found or accepted
for it is that of the payload. -/
def RequestPhase.Owns (obj : rt.Obj) : RequestPhase rt → Prop
  | .unmarshalled p => obj = rt.payload p
  | .found p n => obj = rt.payload p ∧ n = rt.nonce (rt.payload p)
  | .accepted p n => obj = rt.payload p ∧ n = rt.nonce (rt.payload p)
  | _ => True

/-- The invariant: the object belongs to every request in flight, and every call was
isolated. -/
structure Apart (s : EndpointState rt) : Prop where
  phases : ∀ h, (s.phase h).Owns s.obj
  calls : Isolated s

theorem apart_init (nonces : NonceTable) : Apart (EndpointState.init rt nonces) :=
  ⟨fun _ => trivial, fun _ hc => absurd hc List.not_mem_nil⟩

theorem RequestPhase.Owns.keep {obj obj' : rt.Obj} {phase : RequestPhase rt}
    (h : phase.Owns obj) (hkeep : phase.InFlight → obj' = obj) : phase.Owns obj' := by
  cases phase with
  | unmarshalled p =>
    rw [hkeep trivial]
    exact h
  | found p n =>
    rw [hkeep trivial]
    exact h
  | accepted p n =>
    rw [hkeep trivial]
    exact h
  | _ => trivial

/-- One request moves on, with what it does to the object, the table and the calls. -/
theorem Apart.move {s : EndpointState rt} (hs : Apart s) {h : ℕ} {obj : rt.Obj}
    {phase : RequestPhase rt} (nonces : NonceTable) {calls : List (HandlerCall rt)}
    (hphase : phase.Owns obj) (hkeep : Keeps s h obj) (hcalls : ∀ c ∈ calls, c.Own) :
    Apart (EndpointState.move ⟨obj, nonces, s.phase, calls⟩ h phase) := by
  refine ⟨fun g => ?_, hcalls⟩
  show (Function.update s.phase h phase g).Owns obj
  by_cases hg : g = h
  · rw [hg, Function.update_self]
    exact hphase
  · rw [Function.update_of_ne hg]
    exact (hs.phases g).keep fun hflight => hkeep ⟨g, hg, hflight⟩

/-- An object that is not written is kept. -/
theorem keeps_obj (s : EndpointState rt) (h : ℕ) : Keeps s h s.obj := fun _ => rfl

theorem Apart.owns {s : EndpointState rt} (hs : Apart s) {h : ℕ} {phase : RequestPhase rt}
    (hp : s.phase h = phase) : phase.Owns s.obj := by
  rw [← hp]
  exact hs.phases h

/-- **One step keeps the requests apart.** -/
theorem apart_step {expireTime : ℤ} {s s' : EndpointState rt} {a : EndpointAct rt}
    (hs : Apart s) (hG : Undisturbed s a) (hstep : endpointStep expireTime s a = some s') :
    Apart s' := by
  obtain ⟨nonces, rfl⟩ | ⟨h, phase, obj, nonces, calls, -, heffect, rfl⟩ :=
    endpointStep_effect hstep
  · exact ⟨hs.phases, hs.calls⟩
  cases heffect with
  | decrypt => exact hs.move nonces trivial (keeps_obj s h) hs.calls
  | reject _ => exact hs.move nonces trivial (keeps_obj s h) hs.calls
  | unmarshal hp hok => exact hs.move nonces ((hG _ hp).1 hok) (hG _ hp).2 hs.calls
  | spoil hp => exact hs.move nonces trivial (hG _ hp).2 hs.calls
  | lookup hp =>
    have hown : s.obj = rt.payload _ := hs.owns hp
    exact hs.move nonces ⟨hown, by rw [hown]⟩ (keeps_obj s h) hs.calls
  | delete hp =>
    have hown : s.obj = rt.payload _ ∧ _ := hs.owns hp
    exact hs.move nonces hown (keeps_obj s h) hs.calls
  | call hp =>
    refine hs.move nonces trivial hG fun c hc => ?_
    rcases List.mem_cons.mp hc with rfl | hc
    · exact hs.owns hp
    · exact hs.calls c hc

/-! ## Steps that break the condition -/

/-- A request that has been accepted is called on whatever the object holds. -/
theorem call_accepted (expireTime : ℤ) {s : EndpointState rt} {g : ℕ} {p : rt.Plain} {n : Nonce}
    (hp : s.phase g = .accepted p n) (left : rt.Obj) :
    ∃ s', endpointStep expireTime s (.call g left) = some s' ∧
      (Isolated s' → s.obj = rt.payload p) := by
  have hstep : endpointStep expireTime s (.call g left) = some (EndpointState.move
      ⟨left, s.nonces, s.phase, ⟨g, p, n, s.obj⟩ :: s.calls⟩ g .called) := by
    simp only [endpointStep, hp]
  exact ⟨_, hstep, fun hall => (hall ⟨g, p, n, s.obj⟩ List.mem_cons_self).1⟩

/-- An object that changes under an accepted request is seen by its handler. -/
theorem not_isolated_of_change {expireTime : ℤ} {s s' : EndpointState rt} (hs : Apart s) {g : ℕ}
    {p : rt.Plain} {n : Nonce} (hp : s.phase g = .accepted p n)
    (hp' : s'.phase g = .accepted p n) (hobj : s'.obj ≠ s.obj) :
    ∃ s'', endpointStep expireTime s' (.call g s'.obj) = some s'' ∧ ¬ Isolated s'' := by
  obtain ⟨s'', hcall, hseen⟩ := call_accepted expireTime hp' s'.obj
  refine ⟨s'', hcall, fun hall => hobj ?_⟩
  -- before the change the object held the payload of `g`
  have hown : s.obj = rt.payload p := (hs.owns hp).1
  rw [hseen hall, hown]

/-- A body that was mixed with what the object held is handed to the handler, once the
nonce the object then holds is accepted. -/
theorem not_isolated_of_mixed {expireTime now : ℤ} {s : EndpointState rt} {h : ℕ} {p : rt.Plain}
    (hp : s.phase h = .decrypted p) (hok : (rt.unmarshal p s.obj).2 = none)
    (hmixed : (rt.unmarshal p s.obj).1 ≠ rt.payload p)
    (hlookup : lookupNonce expireTime now s.nonces (rt.nonce (rt.unmarshal p s.obj).1) = .ok ()) :
    ∃ left s', run (endpointStep expireTime) s
        [.unmarshal h, .lookup h now, .delete h, .call h left] = some s' ∧ ¬ Isolated s' := by
  have hunmarshal : endpointStep expireTime s (.unmarshal h) = some (EndpointState.move
      ⟨(rt.unmarshal p s.obj).1, s.nonces, s.phase, s.calls⟩ h (.unmarshalled p)) := by
    simp only [endpointStep, hp, hok]
  obtain ⟨s2, hlookup2, hp2, hobj2⟩ : ∃ s2, endpointStep expireTime (EndpointState.move
      ⟨(rt.unmarshal p s.obj).1, s.nonces, s.phase, s.calls⟩ h (.unmarshalled p)) (.lookup h now)
        = some s2 ∧ s2.phase h = .found p (rt.nonce (rt.unmarshal p s.obj).1) ∧
      s2.obj = (rt.unmarshal p s.obj).1 := by
    simp [endpointStep, EndpointState.move, hlookup]
  obtain ⟨s3, hdelete, hp3, hobj3⟩ : ∃ s3, endpointStep expireTime s2 (.delete h) = some s3 ∧
      s3.phase h = .accepted p (rt.nonce (rt.unmarshal p s.obj).1) ∧ s3.obj = s2.obj := by
    simp [endpointStep, EndpointState.move, hp2]
  -- nothing between the `Unmarshal` and the call writes the object
  obtain ⟨s4, hcall, hseen⟩ := call_accepted expireTime hp3 s3.obj
  refine ⟨s3.obj, s4, ?_, fun hall => hmixed ?_⟩
  · simp only [run_cons, run_nil, hunmarshal, hlookup2, hdelete, hcall, Option.bind_some]
  · rw [← hobj2, ← hobj3]
    exact hseen hall

/-- **When the requests to an endpoint stay apart.**  In every run whose steps are all
undisturbed, whenever the handler was called on behalf of a request it saw the payload of
that request, and the nonce accepted for the request is the one in its payload.  From a
state of such a run, a step that changes the object under an accepted request, and an
`Unmarshal` that mixes its body with the old content of the object, can be continued to a
call that was not isolated. -/
theorem isolated_of_undisturbed {expireTime : ℤ} {nonces : NonceTable}
    {as : List (EndpointAct rt)} {s : EndpointState rt}
    (hG : Along (endpointStep expireTime) Undisturbed (EndpointState.init rt nonces) as)
    (hrun : run (endpointStep expireTime) (EndpointState.init rt nonces) as = some s) :
    Isolated s ∧
      (∀ a s' g p n, s.phase g = .accepted p n → endpointStep expireTime s a = some s' →
        s'.phase g = .accepted p n → s'.obj ≠ s.obj →
        ∃ s'', endpointStep expireTime s' (.call g s'.obj) = some s'' ∧ ¬ Isolated s'') ∧
      ∀ h p now, s.phase h = .decrypted p → (rt.unmarshal p s.obj).2 = none →
        (rt.unmarshal p s.obj).1 ≠ rt.payload p →
        lookupNonce expireTime now s.nonces (rt.nonce (rt.unmarshal p s.obj).1) = .ok () →
        ∃ left s', run (endpointStep expireTime) s
          [.unmarshal h, .lookup h now, .delete h, .call h left] = some s' ∧ ¬ Isolated s' := by
  have hs : Apart s := run_invariant_along (fun _ _ _ hs hG hstep => apart_step hs hG hstep)
    (apart_init nonces) hG hrun
  refine ⟨hs.calls, ?_, ?_⟩
  · intro a s' g p n hp _ hp' hobj
    exact not_isolated_of_change hs hp hp' hobj
  · intro h p now hp hok hmixed hlookup
    exact not_isolated_of_mixed hp hok hmixed hlookup

/-! ## One request at a time -/

/-- Nobody but `h` is in flight. -/
def Alone (s : EndpointState rt) (h : ℕ) : Prop := ∀ g, g ≠ h → ¬ (s.phase g).InFlight

theorem Alone.keeps {s : EndpointState rt} {h : ℕ} (ha : Alone s h) (obj : rt.Obj) :
    Keeps s h obj := by
  rintro ⟨g, hg, hflight⟩
  exact absurd hflight (ha g hg)

/-- A step leaves the other requests where they are. -/
theorem phase_of_ne {expireTime : ℤ} {s s' : EndpointState rt} {a : EndpointAct rt} {g : ℕ}
    (hne : a.request ≠ some g) (hstep : endpointStep expireTime s a = some s') :
    s'.phase g = s.phase g := by
  obtain ⟨nonces, rfl⟩ | ⟨h, phase, obj, nonces, calls, hreq, -, rfl⟩ :=
    endpointStep_effect hstep
  · rfl
  · have hgh : g ≠ h := fun heq => hne (heq ▸ hreq)
    exact Function.update_of_ne hgh _ _

/-- The bodies a step brings in overwrite the object. -/
def EndpointAct.Overwriting : EndpointAct rt → Prop
  | .decrypt _ (.ok p) => rt.Overwrites p
  | _ => True

/-- **A request on its own is undisturbed** when its body overwrites the object. -/
theorem along_alone {expireTime : ℤ} {h : ℕ} {as : List (EndpointAct rt)} {s : EndpointState rt}
    (hs : Alone s h) (hbody : ∀ p, s.phase h = .decrypted p → rt.Overwrites p)
    (hreq : ∀ a ∈ as, ∀ g, a.request = some g → g = h) (hover : ∀ a ∈ as, a.Overwriting) :
    Along (endpointStep expireTime) Undisturbed s as := by
  induction as generalizing s with
  | nil => trivial
  | cons a as ih =>
    have hown := hreq a List.mem_cons_self
    refine ⟨?_, fun s' hstep => ih ?_ ?_ (fun a' ha' => hreq a' (List.mem_cons_of_mem _ ha'))
      fun a' ha' => hover a' (List.mem_cons_of_mem _ ha')⟩
    · cases a with
      | unmarshal g =>
        obtain rfl := hown g rfl
        exact fun p hp => ⟨fun _ => (hbody p hp).payload_eq s.obj, hs.keeps _⟩
      | call g left =>
        obtain rfl := hown g rfl
        exact hs.keeps left
      | _ => trivial
    · intro g hg
      rw [phase_of_ne (fun heq => hg (hown g heq)) hstep]
      exact hs g hg
    · intro p hp
      obtain ⟨nonces, rfl⟩ | ⟨g, phase, obj, nonces, calls, hg, heffect, rfl⟩ :=
        endpointStep_effect hstep
      · exact hbody p hp
      · obtain rfl := hown g hg
        have hphase : phase = .decrypted p := by
          rw [← hp, EndpointState.move_phase_self]
        cases heffect with
        | decrypt =>
          obtain rfl := RequestPhase.decrypted.inj hphase
          exact hover _ List.mem_cons_self
        -- no other step leaves its request at a body that is still to be unmarshalled
        | _ => exact absurd hphase (by simp)

end Isolation

/-! ## A ping, and a replayed configuration update -/

/-- The base64 text of `NonceSize` zero bytes. -/
def zeroNonceText : String := String.ofList (List.replicate 171 'A' ++ ['='])

/-- The base64 text of `NonceSize` bytes of which only the last is not zero. -/
def staleNonceText : String := String.ofList (List.replicate 170 'A' ++ ['E', '='])

theorem base64Decode_zeroNonceText : base64Decode zeroNonceText = some zeroRead.byt := by
  unfold base64Decode zeroNonceText
  rw [String.toList_ofList]
  decide +kernel

/-- The body of a ping with a fresh nonce. -/
def pingBody : JsonBody := .ok (.obj [("nonce", .str zeroNonceText)])

/-- That ping, on its own. -/
def pingRun : List (EndpointAct pingRequest) :=
  [.issue zeroRead 0, .decrypt 0 (.ok pingBody), .unmarshal 0, .lookup 0 1, .delete 0,
    .call 0 ⟨[]⟩]

theorem run_pingRun :
    ∃ s, run (endpointStep 30) (EndpointState.init pingRequest ∅) pingRun = some s ∧
      s.calls.length = 1 := by
  have hrun : ((run (endpointStep 30) (EndpointState.init pingRequest ∅) pingRun).any
      fun s => s.calls.length = 1) = true := by decide +kernel
  obtain ⟨s, hs, hlength⟩ := (Option.any_eq_true _ _).mp hrun
  exact ⟨s, hs, of_decide_eq_true hlength⟩

theorem isolated_pingRun :
    ∃ s, run (endpointStep 30) (EndpointState.init pingRequest ∅) pingRun = some s ∧
      s.calls.length = 1 ∧ Isolated s := by
  obtain ⟨s, hs, hlength⟩ := run_pingRun
  have hG : Along (endpointStep 30) Undisturbed (EndpointState.init pingRequest ∅) pingRun := by
    apply along_alone (h := 0)
    · exact fun _ _ => id
    · exact fun p hp => absurd hp (by simp [EndpointState.init])
    · simp [pingRun, EndpointAct.request]
    · have hover := overwrites_nonceOnly "ping" base64Decode_zeroNonceText
      simp only [pingRun, List.forall_mem_cons]
      exact ⟨trivial, hover, trivial, trivial, trivial, trivial, fun _ h => absurd h (by simp)⟩
  exact ⟨s, hs, hlength, (isolated_of_undisturbed hG hs).1⟩

/-- No key is in the bodies below. -/
def noKeys (_ : Json) : Except String JSONWebKey := .error "no key"

/-- A configuration update with a fresh nonce, and an older one that was recorded on its
way to the server. -/
def freshBody : JsonBody :=
  .ok (.obj [("nonce", .str zeroNonceText), ("config", .obj [("shutdown_wait", .num 1 0)])])

def staleBody : JsonBody :=
  .ok (.obj [("nonce", .str staleNonceText), ("config", .obj [("shutdown_wait", .num 2 0)])])

/-- The recorded body is sent again and unmarshalled after the nonce of the fresh request
has been accepted, and before its handler is called. -/
def replayRun : List (EndpointAct (configUpdateRequest noKeys)) :=
  [.issue zeroRead 0, .decrypt 0 (.ok freshBody), .unmarshal 0, .lookup 0 1, .delete 0,
    .decrypt 1 (.ok staleBody), .unmarshal 1,
    .call 0 ((configUpdateRequest noKeys).payload staleBody)]

/-- The shutdown wait in a configuration update. -/
def updatedWait (obj : ConfigUpdate) : Option ℤ := obj.config.map fun c => c.shutdownWait

/-- **A replayed update rides on the nonce of another request**: the handler that is called
for the fresh request, whose nonce was accepted, sees the recorded configuration. -/
theorem isolated_replay :
    ∃ s, run (endpointStep 30) (EndpointState.init (configUpdateRequest noKeys) ∅) replayRun
        = some s ∧
      (∃ c ∈ s.calls, c.request = 0 ∧ c.accepted = zeroRead.byt ∧
        updatedWait c.seen = some 2 ∧
        updatedWait ((configUpdateRequest noKeys).payload c.plain) = some 1) ∧
      ¬ Isolated s := by
  have hrun : ((run (endpointStep 30) (EndpointState.init (configUpdateRequest noKeys) ∅)
      replayRun).any fun s => s.calls.any fun c => c.request = 0 ∧ c.accepted = zeroRead.byt ∧
        updatedWait c.seen = some 2 ∧
        updatedWait ((configUpdateRequest noKeys).payload c.plain) = some 1) = true := by
    decide +kernel
  obtain ⟨s, hs, hcalls⟩ := (Option.any_eq_true _ _).mp hrun
  obtain ⟨c, hc, hfacts⟩ := List.any_eq_true.mp hcalls
  obtain ⟨hrequest, haccepted, hseen, hown⟩ := of_decide_eq_true hfacts
  refine ⟨s, hs, ⟨c, hc, hrequest, haccepted, hseen, hown⟩, fun hall => ?_⟩
  rw [← (hall c hc).1, hseen] at hown
  exact absurd hown (by decide)

end Border
