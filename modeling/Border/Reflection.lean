/-
# Can a message of the server be sent back to it?

Requests and responses (`pkg/api`) are JSON objects that share their keys, or the bare bytes
of a nonce; both travel encrypted with the same key, and nothing tells their direction.  A
response that is captured and sent to a `PUT` endpoint is decrypted and unmarshalled like a
request.

* `key_length` : every key of a reachable nonce table has `NonceSize` bytes, whatever the
  interleaving of the calls that touch the table;
* `plaintext_light` : nothing under the key `nonce` of a message of the server can be decoded
  to that many bytes: a JSON response leaves its nonce null, and the text of a nonce is too
  short to hold a nonce, in base64 as in an array of numbers;
* `response_not_reflected` : so every endpoint with a JSON body rejects every message of the
  server.

The object that the message is unmarshalled into is a new one.  The handlers of an endpoint share
theirs: there a message without a nonce leaves the one of an earlier request, and is judged by that.
-/
import Border.Endpoints
import Border.JsonRender
import Border.NonceRace

namespace Border

open GoJson Transition

/-! ## Bodies and messages as bytes -/

/-- The document of a decrypted body, or why it is none. -/
def readBody (bytes : List UInt8) : JsonBody := (parse bytes).mapError SyntaxError.text

/-- A decrypted body as the `Unmarshal` of an endpoint takes it. -/
def Endpoint.plain (unmarshalKey : Json → Except String JSONWebKey) :
    (e : Endpoint) → List UInt8 → (e.request unmarshalKey).Plain
  | .authCheck, bytes => bytes
  | .configUpdate, bytes => readBody bytes
  | .configReload, bytes => readBody bytes
  | .peerRegister, bytes => readBody bytes
  | .identifyPublisher, bytes => readBody bytes
  | .uptime, bytes => readBody bytes
  | .ping, bytes => readBody bytes
  | .configChain, bytes => readBody bytes
  | .configFetch, bytes => readBody bytes

/-- The document `json.Marshal` writes for a response; what it makes of a configuration is
left open. -/
def Message.document (encodeConfig : ConfigData → Json) : Message → Option Json
  | .nonce _ => none
  | .nil => none
  | .identifyPublisher publisher => some (.obj [("nonce", .null), ("publisher", .str publisher)])
  | .uptime since => some (.obj [("uptime", .num since 0)])
  | .configChain chain => some (.obj [("nonce", .null), ("chain", .arr (chain.map .str))])
  | .configFetch config chain =>
    some (.obj [("nonce", .null), ("config", encodeConfig config), ("chain", .arr (chain.map .str))])

/-- The plaintexts of a message: the nonce itself, the braces of the `NilResponse`, and every
text of the document of another response. -/
inductive Message.Plaintext (encodeConfig : ConfigData → Json) : Message → List UInt8 → Prop
  | nonce (bytes : AuthCheck) : Plaintext encodeConfig (.nonce bytes) bytes.val
  | nil : Plaintext encodeConfig .nil (['\x7b', '\x7d'].map ascii)
  | json {m : Message} {j : Json} {bytes : List UInt8} (hdocument : m.document encodeConfig = some j)
      (hparse : parse bytes = .ok j) : Plaintext encodeConfig m bytes

/-- Every response that is a document has a plaintext. -/
theorem plaintext_render {encodeConfig : ConfigData → Json} {m : Message} {j : Json}
    (h : m.document encodeConfig = some j) : m.Plaintext encodeConfig (render j) :=
  .json h (parse_render j)

/-! ## The nonce in a message of the server -/

/-- The document of a response has a null nonce, or none. -/
theorem under_document {encodeConfig : ConfigData → Json} {m : Message} {j : Json}
    (h : m.document encodeConfig = some j) : ∀ v ∈ j.under "nonce", v = .null := by
  have hpublisher : foldKey "nonce" ≠ foldKey "publisher" := by decide
  have huptime : foldKey "nonce" ≠ foldKey "uptime" := by decide
  have hchain : foldKey "nonce" ≠ foldKey "chain" := by decide
  have hconfig : foldKey "nonce" ≠ foldKey "config" := by decide
  cases m with
  | nonce bytes => exact absurd h (by simp [Message.document])
  | nil => exact absurd h (by simp [Message.document])
  | identifyPublisher publisher =>
    cases h
    simp [Json.under, hpublisher]
  | uptime since =>
    cases h
    simp [Json.under, huptime]
  | configChain chain =>
    cases h
    simp [Json.under, hchain]
  | configFetch config chain =>
    cases h
    simp [Json.under, hchain, hconfig]

/-- **Nothing a message of the server gives to a nonce is long enough for one.** -/
theorem plaintext_light {encodeConfig : ConfigData → Json} {m : Message} {bytes : List UInt8}
    (hm : m.Plaintext encodeConfig bytes) {j : Json} (hj : parse bytes = .ok j) :
    ∀ v ∈ j.under "nonce", v.breadth ≤ nonceSize - 1 := by
  intro v hv
  cases hm with
  | nonce ac =>
    have hlight := parse_light hj
    rw [ac.property] at hlight
    cases j with
    | obj kvs =>
      obtain ⟨kv, hkv, rfl⟩ := List.mem_map.mp hv
      exact Nat.le_pred_of_lt (hlight.fields kvs rfl kv (List.mem_filter.mp hkv).1)
    | _ => exact absurd hv List.not_mem_nil
  | nil =>
    obtain rfl : j = .obj [] := Except.ok.inj (hj.symm.trans (parse_render (.obj [])))
    exact absurd hv List.not_mem_nil
  | json hdocument hparse =>
    obtain rfl := Except.ok.inj (hj.symm.trans hparse)
    rw [under_document hdocument v hv]
    exact Nat.zero_le _

theorem readBody_ok {bytes : List UInt8} {j : Json} (h : readBody bytes = .ok j) :
    parse bytes = .ok j := by
  unfold readBody at h
  cases hparse : parse bytes with
  | error e =>
    rw [hparse] at h
    exact absurd h (by simp [Except.mapError])
  | ok j' =>
    rw [hparse] at h
    exact congrArg Except.ok (Except.ok.inj h)

/-- A body is no JSON, or what is read of it is what its document gives. -/
theorem unmarshalJSON_light {σ : Type} (get : σ → List UInt8) {d : Decoder σ} {s : σ} {n : ℕ}
    {body : JsonBody} (hd : ∀ j, body = .ok j → (get (d j s).1).length ≤ n) :
    (unmarshalJSON d body s).2 ≠ none ∨ (get (unmarshalJSON d body s).1).length ≤ n := by
  cases body with
  | error msg => exact Or.inl (by simp [unmarshalJSON])
  | ok j => exact Or.inr (hd j rfl)

/-- An endpoint with a JSON body unmarshals a short nonce, if any, from a body that gives
nothing long to it. -/
theorem nonce_unmarshal (unmarshalKey : Json → Except String JSONWebKey) {e : Endpoint}
    (he : e ≠ .authCheck) {bytes : List UInt8} {n : ℕ}
    (hlight : ∀ j, parse bytes = .ok j → ∀ v ∈ j.under "nonce", v.breadth ≤ n) :
    ((e.request unmarshalKey).unmarshal (e.plain unmarshalKey bytes)
        (e.request unmarshalKey).new).2 ≠ none ∨
      ((e.request unmarshalKey).nonce ((e.request unmarshalKey).unmarshal
        (e.plain unmarshalKey bytes) (e.request unmarshalKey).new).1).length ≤ n := by
  have hbody : ∀ j, readBody bytes = .ok j → ∀ v ∈ j.under "nonce", v.breadth ≤ n :=
    fun j hj => hlight j (readBody_ok hj)
  -- the other fields of a request leave its nonce alone
  cases e with
  | authCheck => exact absurd rfl he
  | configUpdate =>
    refine unmarshalJSON_light ConfigUpdate.nonceValue fun j hj => ?_
    exact length_bytesField (fun _ _ => rfl) (by simp [field]) (hbody j hj) (Nat.zero_le n)
  | peerRegister =>
    refine unmarshalJSON_light PeerRegistration.nonceValue fun j hj => ?_
    exact length_bytesField (fun _ _ => rfl) (by simp [field]) (hbody j hj) (Nat.zero_le n)
  | _ =>
    refine unmarshalJSON_light NonceOnly.nonceValue fun j hj => ?_
    exact length_bytesField (fun _ _ => rfl) (by simp) (hbody j hj) (Nat.zero_le n)

/-! ## The keys of the nonce table -/

/-- Every key of the table, and every nonce about to become one, has the right length. -/
structure Sized (s : RaceState) : Prop where
  keys : ∀ n t, s.nonces.lookup n = some t → n.length = nonceSize
  drawn : ∀ h n, s.issuer h = .drawn n → n.length = nonceSize

theorem sized_init : Sized RaceState.init :=
  ⟨fun _ _ h => absurd h (by simp [RaceState.init]), fun _ _ h => absurd h (by simp [RaceState.init])⟩

/-- Deleting an entry leaves the others. -/
theorem Sized.erase {s : RaceState} (hs : Sized s) (m : Nonce) {n : Nonce} {t : ℤ}
    (h : (s.nonces.erase m).lookup n = some t) : n.length = nonceSize := by
  by_cases hn : n = m
  · rw [hn, Finmap.lookup_erase] at h
    exact absurd h (by simp)
  · rw [Finmap.lookup_erase_ne hn] at h
    exact hs.keys n t h

/-- **One section keeps the length of the keys.** -/
theorem Sized.step {expireTime : ℤ} {s s' : RaceState} {a : RaceAct} (hs : Sized s)
    (hstep : raceStep expireTime s a = some s') : Sized s' := by
  cases a with
  | lookup v n now =>
    simp only [raceStep] at hstep
    split at hstep
    · split at hstep
      · cases hstep
        exact ⟨hs.keys, hs.drawn⟩
      · cases hstep
        exact ⟨hs.keys, hs.drawn⟩
    · exact absurd hstep (by simp)
  | delete v =>
    simp only [raceStep] at hstep
    split at hstep
    next n _ =>
      cases hstep
      exact ⟨fun _ _ h => hs.erase n h, hs.drawn⟩
    next => exact absurd hstep (by simp)
  | draw h r =>
    simp only [raceStep] at hstep
    split at hstep
    · split_ifs at hstep
      · cases hstep
        exact hs
      · cases hstep
        refine ⟨hs.keys, fun g n hg => ?_⟩
        by_cases hgh : g = h
        · dsimp only at hg
          rw [hgh, Function.update_self, IssuerPhase.drawn.injEq] at hg
          rw [← hg]
          exact r.length_byt
        · dsimp only at hg
          rw [Function.update_of_ne hgh] at hg
          exact hs.drawn g n hg
    · exact absurd hstep (by simp)
  | insert h now =>
    simp only [raceStep] at hstep
    split at hstep
    next m hm =>
      cases hstep
      refine ⟨fun n t hn => ?_, fun g n hg => ?_⟩
      · dsimp only at hn
        by_cases hnm : n = m
        · rw [hnm]
          exact hs.drawn h m hm
        · rw [Finmap.lookup_insert_of_ne _ hnm] at hn
          exact hs.keys n t hn
      · dsimp only at hg
        by_cases hgh : g = h
        · rw [hgh, Function.update_self] at hg
          exact absurd hg (by simp)
        · rw [Function.update_of_ne hgh] at hg
          exact hs.drawn g n hg
    next => exact absurd hstep (by simp)
  | examine w n now =>
    simp only [raceStep] at hstep
    split at hstep
    · split_ifs at hstep
      · cases hstep
        exact ⟨hs.keys, hs.drawn⟩
      · cases hstep
        exact hs
    · exact absurd hstep (by simp)
  | prune w =>
    simp only [raceStep] at hstep
    split at hstep
    next n _ =>
      cases hstep
      exact ⟨fun _ _ h => hs.erase n h, hs.drawn⟩
    next => exact absurd hstep (by simp)

/-- Every key of a reachable table has `NonceSize` bytes. -/
theorem key_length {expireTime : ℤ} {as : List RaceAct} {s : RaceState}
    (hrun : run (raceStep expireTime) .init as = some s) {n : Nonce} {t : ℤ}
    (h : s.nonces.lookup n = some t) : n.length = nonceSize :=
  (run_invariant (fun _ _ _ hs hstep => hs.step hstep) sized_init hrun).keys n t h

/-! ## Messages sent back -/

/-- **The server rejects its own messages.**  For every nonce table that is reached by any
interleaving of the calls that touch it, every message the server answers with and every
plaintext of that message, and every endpoint with a JSON body: unmarshalling the plaintext
into a new request object fails, or gives a nonce that is not in the table; and the verdict on the
request is a rejection.  Into the object that an endpoint shares among its requests, a `\x7b\x7d`
that is sent back leaves whatever nonce is there, and can be accepted. -/
theorem response_not_reflected (unmarshalKey : Json → Except String JSONWebKey)
    (encodeConfig : ConfigData → Json) {expireTime : ℤ} {as : List RaceAct} {s : RaceState}
    (hrun : run (raceStep expireTime) .init as = some s) {m : Message} {bytes : List UInt8}
    (hm : m.Plaintext encodeConfig bytes) {e : Endpoint} (he : e ≠ .authCheck) (now : ℤ) :
    (((e.request unmarshalKey).unmarshal (e.plain unmarshalKey bytes)
        (e.request unmarshalKey).new).2 ≠ none ∨
      s.nonces.lookup ((e.request unmarshalKey).nonce ((e.request unmarshalKey).unmarshal
        (e.plain unmarshalKey bytes) (e.request unmarshalKey).new).1) = none) ∧
    ∃ rejection, (handleValidateNonce (e.request unmarshalKey) expireTime now s.nonces
      (e.request unmarshalKey).new (.ok (e.plain unmarshalKey bytes))).1 = .error rejection := by
  have hfails : ((e.request unmarshalKey).unmarshal (e.plain unmarshalKey bytes)
        (e.request unmarshalKey).new).2 ≠ none ∨
      s.nonces.lookup ((e.request unmarshalKey).nonce ((e.request unmarshalKey).unmarshal
        (e.plain unmarshalKey bytes) (e.request unmarshalKey).new).1) = none := by
    refine (nonce_unmarshal unmarshalKey he fun j => plaintext_light hm).imp_right fun hlength => ?_
    by_contra hkey
    obtain ⟨t, ht⟩ := Option.ne_none_iff_exists'.mp hkey
    rw [key_length hrun ht] at hlength
    exact absurd hlength (by decide)
  refine ⟨hfails, ?_⟩
  rcases hu : (e.request unmarshalKey).unmarshal (e.plain unmarshalKey bytes)
    (e.request unmarshalKey).new with ⟨obj, failure⟩
  rw [hu] at hfails
  cases failure with
  | some err => exact ⟨_, by rw [handleValidateNonce_unmarshal hu]⟩
  | none =>
    have hlookup : s.nonces.lookup ((e.request unmarshalKey).nonce obj) = none :=
      hfails.resolve_left fun h => h rfl
    have hverdict : lookupNonce expireTime now s.nonces ((e.request unmarshalKey).nonce obj)
        = .error .doesNotExist := by
      rw [lookupNonce, hlookup]
    exact ⟨_, by rw [handleValidateNonce_lookup hu hverdict]⟩

/-- A nonce is issued. -/
def issuing : List RaceAct := [.draw 0 zeroRead, .insert 0 0]

/-- The bytes of a nonce that is in the table are sent back as a ping, and the answer to an
`identifyPublisher` as a registration. -/
theorem response_not_reflected_foo :
    ∃ s, run (raceStep 30) .init issuing = some s ∧ s.nonces.lookup zeroRead.byt = some 0 ∧
      (∃ rejection, (handleValidateNonce pingRequest 30 1 s.nonces pingRequest.new
        (.ok (readBody zeroRead.byt))).1 = .error rejection) ∧
      ∃ rejection, (handleValidateNonce (peerRegistrationRequest noKeys) 30 1 s.nonces
        (peerRegistrationRequest noKeys).new (.ok (readBody (render
          (.obj [("nonce", .null), ("publisher", .str "foo")]))))).1 = .error rejection := by
  have hrun : ((run (raceStep 30) .init issuing).any
      fun s => s.nonces.lookup zeroRead.byt = some 0) = true := by decide +kernel
  obtain ⟨s, hs, hlookup⟩ := (Option.any_eq_true _ _).mp hrun
  have hnonce : (Message.nonce ⟨zeroRead.byt, zeroRead.length_byt⟩).Plaintext (fun _ => .null)
      zeroRead.byt := .nonce _
  have hpublisher : (Message.identifyPublisher "foo").Plaintext (fun _ => .null) (render
      (.obj [("nonce", .null), ("publisher", .str "foo")])) := plaintext_render rfl
  exact ⟨s, hs, of_decide_eq_true hlookup,
    (response_not_reflected noKeys _ hs hnonce (e := .ping) (by decide) 1).2,
    (response_not_reflected noKeys _ hs hpublisher (e := .peerRegister) (by decide) 1).2⟩

end Border
