/-
# Which documents are loaded without a panic

`postLoad` converts the literals of every record and then puts dots behind the names.  It
stops at the first thing it cannot convert, and either returns an error or panics, as the
type assertion, the call of `reflect` or the pointer in question has it.

The tables of this module say, for each field and each kind of JSON value, which of the two
happens.  `postLoad_returns_iff` : whatever the orders of the loops, loading a document ends
without a panic exactly when the first thing in every zone that is not accepted is one that
is reported, and no zone is left without an SOA entry once all of them are accepted.
-/
import Border.ConfigUpdate

namespace Border

open GoJson GoMap NetAddr

/-! ## How a call ends -/

/-- What becomes of something that is loaded: it is accepted, it is reported in an error, or
it ends the program. -/
inductive Verdict
  | accepted
  | reported
  | crash
  deriving DecidableEq, Repr

/-- The verdict on two things that are loaded one after the other. -/
def Verdict.andThen : Verdict → Verdict → Verdict
  | .accepted, v => v
  | .reported, _ => .reported
  | .crash, _ => .crash

/-- The verdict on a list of things: that on the first one that is not accepted. -/
def firstBad (vs : List Verdict) : Verdict := vs.foldr Verdict.andThen .accepted

/-- The verdict a call comes to. -/
def verdict {α : Type} : Except Failure α → Verdict
  | .ok _ => .accepted
  | .error (.error _) => .reported
  | .error (.panic _) => .crash
  | .error (.exit _) => .crash

/-- A call that completes or returns an error. -/
def Returns {α : Type} (x : Except Failure α) : Prop :=
  (∃ a, x = .ok a) ∨ ∃ msg, x = .error (.error msg)

section Verdict

variable {α γ : Type}

theorem returns_iff (x : Except Failure α) : Returns x ↔ verdict x ≠ .crash := by
  unfold Returns
  match x with
  | .ok a => simp [verdict]
  | .error (.error e) => simp [verdict]
  | .error (.panic e) => simp [verdict]
  | .error (.exit e) => simp [verdict]

theorem verdict_eq_accepted {x : Except Failure α} : verdict x = .accepted ↔ ∃ a, x = .ok a := by
  match x with
  | .ok a => simp [verdict]
  | .error (.error e) => simp [verdict]
  | .error (.panic e) => simp [verdict]
  | .error (.exit e) => simp [verdict]

/-- The second call is made with the result of the first. -/
theorem verdict_bind {x : Except Failure α} {f : α → Except Failure γ} {v : Verdict}
    (h : ∀ a, x = .ok a → verdict (f a) = v) : verdict (x >>= f) = (verdict x).andThen v := by
  match x with
  | .ok a => exact h a rfl
  | .error (.error e) => rfl
  | .error (.panic e) => rfl
  | .error (.exit e) => rfl

theorem verdict_map {x : Except Failure α} {f : α → γ} : verdict (x.map f) = verdict x := by
  match x with
  | .ok a => rfl
  | .error (.error e) => rfl
  | .error (.panic e) => rfl
  | .error (.exit e) => rfl

/-- A text in front of an error does not turn it into a panic or back. -/
theorem verdict_wrap (label : String) (e : Failure) :
    verdict (α := γ) (.error (e.wrap label)) = verdict (α := α) (.error e) := by
  cases e <;> rfl

theorem firstBad_cons (v : Verdict) (vs : List Verdict) :
    firstBad (v :: vs) = v.andThen (firstBad vs) := rfl

theorem verdict_mapM (f : α → Except Failure γ) (l : List α) :
    verdict (l.mapM f) = firstBad (l.map fun a => verdict (f a)) := by
  induction l with
  | nil => rfl
  | cons a l ih =>
    rw [List.mapM_cons, List.map_cons, firstBad_cons, ← ih]
    apply verdict_bind
    intro b _
    exact verdict_map (f := fun bs => b :: bs)

theorem verdict_foldlM {f : γ → α → Except Failure γ} {g : α → Verdict}
    (h : ∀ s a, verdict (f s a) = g a) (l : List α) (s : γ) :
    verdict (l.foldlM f s) = firstBad (l.map g) := by
  induction l generalizing s with
  | nil => rfl
  | cons a l ih =>
    rw [List.foldlM_cons, verdict_bind fun s' _ => ih s', h]
    rfl

/-- Only a list with something that ends the program does so. -/
theorem firstBad_ne_crash {vs : List Verdict} (h : ∀ v ∈ vs, v ≠ .crash) :
    firstBad vs ≠ .crash := by
  induction vs with
  | nil => exact fun h => absurd h (by decide)
  | cons v vs ih =>
    have hrest := ih fun w hw => h w (List.mem_cons_of_mem _ hw)
    have hv := h v List.mem_cons_self
    rw [firstBad_cons]
    cases v with
    | accepted => exact hrest
    | reported => exact hv
    | crash => exact absurd rfl hv

/-- A list is accepted when all of it is. -/
theorem firstBad_eq_accepted {vs : List Verdict} :
    firstBad vs = .accepted ↔ ∀ v ∈ vs, v = .accepted := by
  induction vs with
  | nil => simp [firstBad]
  | cons v vs ih =>
    rw [firstBad_cons, List.forall_mem_cons, ← ih]
    cases v with
    | accepted => simp [Verdict.andThen]
    | reported => simp [Verdict.andThen]
    | crash => simp [Verdict.andThen]

theorem firstBad_replicate (n : ℕ) (v : Verdict) : firstBad (List.replicate (n + 1) v) = v := by
  induction n with
  | zero => cases v <;> rfl
  | succ n ih =>
    rw [List.replicate_succ, firstBad_cons, ih]
    cases v <;> rfl

end Verdict

/-! ## The tables -/

/-- A text. -/
def textVerdict : Json → Verdict
  | .str _ => .accepted
  | _ => .crash

/-- A number. -/
def numberVerdict : Json → Verdict
  | .num _ _ => .accepted
  | _ => .crash

/-- A duration. -/
def durationVerdict (parseDuration : String → Except String ℤ) : Json → Verdict
  | .str s =>
    match parseDuration s with
    | .ok _ => .accepted
    | .error _ => .reported
  | _ => .crash

/-- An address of an A record. -/
def addressVerdict : Json → Verdict
  | .str _ => .accepted
  | .arr [] => .accepted
  | .arr (_ :: _) => .crash
  | .null => .crash
  | _ => .reported

/-- A list, over the verdict on an element and on a byte of a text in the place of the
list. -/
def listVerdict (elem : Json → Verdict) (byte : Verdict) : Json → Verdict
  | .arr items => firstBad (items.map elem)
  | .str s => if s = "" then .accepted else byte
  | .null => .crash
  | _ => .reported

/-- An object, over the verdict on one of its fields. -/
def objectVerdict (field : String → Json → Verdict) : Json → Verdict
  | .obj fields => firstBad (fields.map fun kv => field kv.1 kv.2)
  | _ => .reported

/-- The bytes of a certificate or a key. -/
def bytesVerdict : Json → Verdict
  | .str _ => .accepted
  | .arr [] => .accepted
  | _ => .crash

/-- A field of the `tls` object that is not known: a scalar is passed over. -/
def strayVerdict : Json → Verdict
  | .str _ => .accepted
  | .num _ _ => .accepted
  | .bool _ => .accepted
  | _ => .crash

/-- A field of the `tls` object.  The first name is the whole tag of the optional field. -/
def tlsVerdict (key : String) (j : Json) : Verdict :=
  if key = "ca_certificate,optional" ∨ key = "certificate" ∨ key = "key" then bytesVerdict j
  else strayVerdict j

/-- A field of an entry of a `healthcheck` list. -/
def healthCheckVerdict (parseDuration : String → Except String ℤ) (key : String) (j : Json) :
    Verdict :=
  if key = "name,optional" ∨ key = "type,optional" then textVerdict j
  else if key = "timeout" then durationVerdict parseDuration j
  else if key = "failures" then numberVerdict j
  else .reported

/-- One field of a literal. -/
def fieldVerdict (literal : List (String × Json)) (tag : String) (optional : Bool)
    (v : Json → Verdict) : Verdict :=
  match literal.lookup tag with
  | some j => v j
  | none => if optional then .accepted else .reported

section Tables

variable (parseDuration : String → Except String ℤ)

/-- The `healthcheck` field of either record. -/
def healthChecksVerdict : Json → Verdict :=
  listVerdict (objectVerdict (healthCheckVerdict parseDuration)) .reported

/-- The literal of an A record, field by field. -/
def aVerdict (literal : List (String × Json)) : Verdict :=
  firstBad [
    fieldVerdict literal "addresses" false (listVerdict addressVerdict .reported),
    -- whatever the TTL is, it is not a `uint32`
    fieldVerdict literal "ttl" true fun _ => .crash,
    fieldVerdict literal "healthcheck" true (healthChecksVerdict parseDuration)]

/-- The literal of an LB record, field by field. -/
def lbVerdict (literal : List (String × Json)) : Verdict :=
  firstBad [
    fieldVerdict literal "listeners" false (listVerdict textVerdict .crash),
    fieldVerdict literal "kind" false textVerdict,
    fieldVerdict literal "backends" false (listVerdict textVerdict .crash),
    fieldVerdict literal "simultaneous_connections" true numberVerdict,
    fieldVerdict literal "max_connections_per_address" true numberVerdict,
    fieldVerdict literal "connection_timeout" true (durationVerdict parseDuration),
    fieldVerdict literal "ttl" true fun _ => .crash,
    fieldVerdict literal "tls" true (objectVerdict tlsVerdict),
    fieldVerdict literal "healthcheck" true (healthChecksVerdict parseDuration)]

/-- A record of a zone with or without an SOA entry. -/
def recordVerdict (soa : Option SOA) : Option Record → Verdict
  | none => .crash
  | some r =>
    match r.type, soa with
    | .other _, _ => .reported
    | _, none => .crash
    | .a, some _ => aVerdict parseDuration (r.literalValue.getD [])
    | .lb, some _ => lbVerdict parseDuration (r.literalValue.getD [])

/-- A zone, without the decoration of its names. -/
def zoneVerdict : Option Zone → Verdict
  | none => .crash
  | some z =>
    match z.ns with
    | none => .crash
    | some ns =>
      if ns.ttl = 0 ∧ z.soa = none then .crash
      else firstBad (z.records.elems.map (recordVerdict parseDuration z.soa))

end Tables

/-! ## The conversions follow the tables -/

section Conversions

variable {parseDuration : String → Except String ℤ}

theorem verdict_typeAssertString (j : Json) :
    verdict (typeAssertString (.json j)) = textVerdict j := by
  cases j <;> rfl

theorem verdict_typeAssertInt (j : Json) : verdict (typeAssertInt j) = numberVerdict j := by
  cases j <;> rfl

theorem verdict_typeAssertDuration (j : Json) :
    verdict (typeAssertDuration parseDuration j) = durationVerdict parseDuration j := by
  cases j with
  | str s =>
    unfold typeAssertDuration durationVerdict
    dsimp only
    cases parseDuration s <;> rfl
  | null => rfl
  | bool b => rfl
  | num m e => rfl
  | arr items => rfl
  | obj fields => rfl

theorem verdict_typeAssertIP (j : Json) :
    verdict (typeAssertIP (.json j)) = addressVerdict j := by
  cases j with
  | arr items => cases items <;> rfl
  | null => rfl
  | bool b => rfl
  | num m e => rfl
  | str s => rfl
  | obj fields => rfl

theorem textBytes_eq_nil_iff (s : String) : textBytes s = [] ↔ s = "" := by
  unfold textBytes
  constructor
  · intro h
    have hsize : s.toUTF8.data.size = 0 := by
      rw [← Array.length_toList, h]
      rfl
    exact String.utf8ByteSize_eq_zero_iff.mp hsize
  · rintro rfl
    rfl

/-- A list, given the verdicts on its elements. -/
theorem verdict_typeAssertSlice {α : Type} {elem : Literal → Except Failure α}
    {v : Json → Verdict} {byte : Verdict} (hjson : ∀ j, verdict (elem (.json j)) = v j)
    (hbyte : ∀ b, verdict (elem (.byte b)) = byte) (j : Json) :
    verdict (typeAssertSlice elem j) = listVerdict v byte j := by
  cases j with
  | arr items =>
    unfold typeAssertSlice listVerdict
    rw [verdict_mapM, List.map_map]
    congr 1
    exact List.map_congr_left fun j _ => hjson j
  | str s =>
    unfold typeAssertSlice listVerdict
    dsimp only
    rw [verdict_mapM, List.map_map]
    have hmap : (textBytes s).map ((fun a => verdict (elem a)) ∘ Literal.byte)
        = List.replicate (textBytes s).length byte := by
      rw [← List.map_const']
      exact List.map_congr_left fun b _ => hbyte b
    rw [hmap]
    by_cases hs : s = ""
    · rw [if_pos hs, (textBytes_eq_nil_iff s).mpr hs]
      rfl
    · rw [if_neg hs]
      cases hbytes : textBytes s with
      | nil => exact absurd ((textBytes_eq_nil_iff s).mp hbytes) hs
      | cons b bs => exact firstBad_replicate bs.length byte
  | null => rfl
  | bool b => rfl
  | num m e => rfl
  | obj fields => rfl

/-- An object, given the verdicts on its fields. -/
theorem verdict_typeAssertStruct {σ : Type} {assign : String → Json → σ → Except Failure σ}
    {v : String → Json → Verdict} (h : ∀ key j s, verdict (assign key j s) = v key j) (zero : σ)
    (j : Json) : verdict (typeAssertStruct assign zero (.json j)) = objectVerdict v j := by
  cases j with
  | obj fields => exact verdict_foldlM (fun s kv => h kv.1 kv.2 s) fields zero
  | null => rfl
  | bool b => rfl
  | num m e => rfl
  | str s => rfl
  | arr items => rfl

theorem verdict_typeAssertBytes (j : Json) : verdict (typeAssertBytes j) = bytesVerdict j := by
  cases j with
  | arr items => cases items <;> rfl
  | null => rfl
  | bool b => rfl
  | num m e => rfl
  | str s => rfl
  | obj fields => rfl

theorem verdict_typeAssertNoField {σ : Type} (s : σ) (j : Json) :
    verdict (typeAssertNoField s j) = strayVerdict j := by
  cases j <;> rfl

theorem verdict_assignTLS (key : String) (j : Json) (tls : TLSLB) :
    verdict (assignTLS key j tls) = tlsVerdict key j := by
  unfold assignTLS tlsVerdict
  by_cases hca : key = "ca_certificate,optional"
  · rw [if_pos hca, if_pos (Or.inl hca), verdict_map, verdict_typeAssertBytes]
  · rw [if_neg hca]
    by_cases hcert : key = "certificate"
    · rw [if_pos hcert, if_pos (Or.inr (Or.inl hcert)), verdict_map, verdict_typeAssertBytes]
    · rw [if_neg hcert]
      by_cases hkey : key = "key"
      · rw [if_pos hkey, if_pos (Or.inr (Or.inr hkey)), verdict_map, verdict_typeAssertBytes]
      · rw [if_neg hkey, if_neg (by simp [hca, hcert, hkey]), verdict_typeAssertNoField]

/-- A scalar field: what is no scalar ends the program, as it does in the tables. -/
theorem verdict_typeAssertScalar {α : Type} {assert : Json → Except Failure α}
    {v : Json → Verdict} {listPanic : Failure} (h : ∀ j, verdict (assert j) = v j)
    (hlist : verdict (α := α) (.error listPanic) = .crash) (hnull : v .null = .crash)
    (harr : ∀ items, v (.arr items) = .crash) (hobj : ∀ fields, v (.obj fields) = .crash)
    (j : Json) : verdict (typeAssertScalar listPanic assert j) = v j := by
  cases j with
  | null => exact hnull.symm
  | arr items => exact hlist.trans (harr items).symm
  | obj fields => exact (hobj fields).symm
  | bool b => exact h _
  | num m e => exact h _
  | str s => exact h _

theorem verdict_assignHealthCheck (key : String) (j : Json) (hc : HealthCheck) :
    verdict (assignHealthCheck parseDuration key j hc)
      = healthCheckVerdict parseDuration key j := by
  have htext : ∀ j, verdict (typeAssertScalar (reflectPanic "Grow" "string")
      (fun j => typeAssertString (.json j)) j) = textVerdict j :=
    verdict_typeAssertScalar verdict_typeAssertString rfl rfl (fun _ => rfl) fun _ => rfl
  unfold assignHealthCheck healthCheckVerdict
  by_cases hname : key = "name,optional"
  · rw [if_pos hname, if_pos (Or.inl hname), verdict_map, htext]
  · rw [if_neg hname]
    by_cases htype : key = "type,optional"
    · rw [if_pos htype, if_pos (Or.inr htype), verdict_map, htext]
    · have hneither : ¬ (key = "name,optional" ∨ key = "type,optional") := by simp [hname, htype]
      rw [if_neg htype, if_neg hneither]
      by_cases htimeout : key = "timeout"
      · rw [if_pos htimeout, if_pos htimeout, verdict_map]
        exact verdict_typeAssertScalar verdict_typeAssertDuration rfl rfl (fun _ => rfl)
          (fun _ => rfl) j
      · rw [if_neg htimeout, if_neg htimeout]
        by_cases hfailures : key = "failures"
        · rw [if_pos hfailures, if_pos hfailures, verdict_map]
          exact verdict_typeAssertScalar verdict_typeAssertInt rfl rfl (fun _ => rfl)
            (fun _ => rfl) j
        · rw [if_neg hfailures, if_neg hfailures]
          rfl

theorem verdict_typeAssertHealthChecks (j : Json) :
    verdict (typeAssertHealthChecks parseDuration j) = healthChecksVerdict parseDuration j :=
  verdict_typeAssertSlice
    (verdict_typeAssertStruct verdict_assignHealthCheck ⟨"", .ofString "", 0, 0, "", false⟩)
    (fun _ => rfl) j

theorem verdict_literalField {σ α : Type} {assert : Json → Except Failure α}
    {v : Json → Verdict} (h : ∀ j, verdict (assert j) = v j) (literal : List (String × Json))
    (tag : String) (optional : Bool) (set : σ → α → σ) (s : σ) :
    verdict (literalField literal tag optional assert set s)
      = fieldVerdict literal tag optional v := by
  unfold literalField fieldVerdict
  cases literal.lookup tag with
  | none => cases optional <;> rfl
  | some j =>
    dsimp only
    rw [← h j]
    cases assert j with
    | ok a => rfl
    | error e => exact verdict_wrap _ e

/-- A sequence of fields. -/
theorem verdict_then {σ : Type} {x : Except Failure σ} {f : σ → Except Failure σ} {v : Verdict}
    {vs : List Verdict} (hx : verdict x = v) (hf : ∀ s, verdict (f s) = firstBad vs) :
    verdict (x >>= f) = firstBad (v :: vs) := by
  rw [verdict_bind fun s _ => hf s, hx, firstBad_cons]

theorem verdict_last {σ : Type} {x : Except Failure σ} {v : Verdict} (hx : verdict x = v) :
    verdict x = firstBad [v] := by
  rw [hx]
  cases v <;> rfl

theorem verdict_parseA (literal : List (String × Json)) (a : ARecord) :
    verdict (parseA parseDuration literal a) = aVerdict parseDuration literal := by
  unfold parseA aVerdict
  refine verdict_then (verdict_literalField
    (verdict_typeAssertSlice verdict_typeAssertIP fun _ => rfl) ..) fun a => ?_
  refine verdict_then (verdict_literalField (fun _ => rfl) ..) fun a => ?_
  exact verdict_last (verdict_literalField verdict_typeAssertHealthChecks ..)

theorem verdict_parseLB (literal : List (String × Json)) (lb : LBRecord) :
    verdict (parseLB parseDuration literal lb) = lbVerdict parseDuration literal := by
  have htexts : ∀ j, verdict (typeAssertSlice typeAssertString j) = listVerdict textVerdict .crash j :=
    verdict_typeAssertSlice verdict_typeAssertString fun _ => rfl
  unfold parseLB lbVerdict
  refine verdict_then (verdict_literalField htexts ..) fun lb => ?_
  refine verdict_then (verdict_literalField verdict_typeAssertString ..) fun lb => ?_
  refine verdict_then (verdict_literalField htexts ..) fun lb => ?_
  refine verdict_then (verdict_literalField verdict_typeAssertInt ..) fun lb => ?_
  refine verdict_then (verdict_literalField verdict_typeAssertInt ..) fun lb => ?_
  refine verdict_then (verdict_literalField verdict_typeAssertDuration ..) fun lb => ?_
  refine verdict_then (verdict_literalField (fun _ => rfl) ..) fun lb => ?_
  refine verdict_then (verdict_literalField
    (verdict_typeAssertStruct verdict_assignTLS ⟨[], [], []⟩) ..) fun lb => ?_
  exact verdict_last (verdict_literalField verdict_typeAssertHealthChecks ..)

theorem verdict_recordError {α : Type} (name : String) (x : Except Failure α) :
    verdict (recordError name x) = verdict x := by
  match x with
  | .ok a => rfl
  | .error (.error e) => rfl
  | .error (.panic e) => rfl
  | .error (.exit e) => rfl

theorem verdict_convertRecord (soa : Option SOA) (r : Record) :
    verdict (convertRecord parseDuration soa r) = recordVerdict parseDuration soa (some r) := by
  obtain ⟨type, name, literal, value⟩ := r
  cases type with
  | other type => cases soa <;> rfl
  | a =>
    cases soa with
    | none => rfl
    | some soa =>
      show verdict ((recordError name (parseA parseDuration (literal.getD []) _)).map _) = _
      rw [verdict_map, verdict_recordError, verdict_parseA]
      rfl
  | lb =>
    cases soa with
    | none => rfl
    | some soa =>
      show verdict ((recordError name (parseLB parseDuration (literal.getD []) _)).map _) = _
      rw [verdict_map, verdict_recordError, verdict_parseLB]
      rfl

theorem verdict_convertRecords (soa : Option SOA) (rs : List (Option Record)) :
    verdict (convertRecords parseDuration soa rs)
      = firstBad (rs.map (recordVerdict parseDuration soa)) := by
  induction rs with
  | nil => rfl
  | cons r rs ih =>
    cases r with
    | none => rfl
    | some r =>
      rw [convertRecords, List.map_cons, firstBad_cons, ← verdict_convertRecord]
      apply verdict_bind
      intro r' _
      rw [← ih]
      exact verdict_map (f := fun rest => some r' :: rest)

/-- **A zone is converted as its verdict says.** -/
theorem verdict_convertZone (zone : Option Zone) :
    verdict (convertZone parseDuration zone) = zoneVerdict parseDuration zone := by
  cases zone with
  | none => rfl
  | some z =>
    obtain ⟨soa, ns, records⟩ := z
    cases ns with
    | none => rfl
    | some ns =>
      have hrest : ∀ ns', verdict (convertRecords parseDuration soa records.elems >>= fun rs =>
          Except.ok (some (Zone.mk soa (some ns') (records.map fun _ => rs))))
          = firstBad (records.elems.map (recordVerdict parseDuration soa)) := by
        intro ns'
        rw [← verdict_convertRecords]
        exact verdict_map (f := fun rs => some (Zone.mk soa (some ns') (records.map fun _ => rs)))
      have hbind : verdict (convertZone parseDuration (some ⟨soa, some ns, records⟩))
          = (verdict (defaultTTL soa ns)).andThen
            (firstBad (records.elems.map (recordVerdict parseDuration soa))) :=
        verdict_bind fun ns' _ => hrest ns'
      rw [hbind]
      unfold defaultTTL zoneVerdict
      by_cases httl : ns.ttl = 0
      · rw [if_pos httl]
        cases soa with
        | none => simp [httl, verdict, nilDereference, Verdict.andThen]
        | some soa => simp [verdict, Verdict.andThen]
      · rw [if_neg httl]
        simp [httl, verdict, Verdict.andThen]

/-- The verdict on a key of the map. -/
def keyVerdict (parseDuration : String → Except String ℤ) (zones : Zones) (key : String) : Verdict :=
  match zones.lookup key with
  | none => .accepted
  | some zone => zoneVerdict parseDuration zone

/-- The loop over the zones. -/
theorem verdict_convertZones {keys : List String} (hnodup : keys.Nodup) (zones : Zones) :
    verdict (convertZones parseDuration keys zones)
      = firstBad (keys.map (keyVerdict parseDuration zones)) := by
  induction keys generalizing zones with
  | nil => rfl
  | cons key keys ih =>
    obtain ⟨hkey, hrest⟩ := List.nodup_cons.mp hnodup
    rw [convertZones, List.map_cons, firstBad_cons]
    cases hlookup : zones.lookup key with
    | none =>
      rw [ih hrest, show keyVerdict parseDuration zones key = .accepted by
        rw [keyVerdict, hlookup]]
      rfl
    | some zone =>
      have hhead : keyVerdict parseDuration zones key = verdict (convertZone parseDuration zone) := by
        rw [keyVerdict, hlookup, verdict_convertZone]
      rw [hhead]
      apply verdict_bind
      intro zone' _
      rw [ih hrest]
      -- the zone just written back is not visited again
      congr 1
      apply List.map_congr_left
      intro k hk
      have hne : k ≠ key := fun h => hkey (h ▸ hk)
      rw [keyVerdict, keyVerdict, Finmap.lookup_insert_of_ne zones hne]

end Conversions

/-! ## The decoration -/

/-- A zone without a nil pointer on the way of the renaming loop. -/
def Complete (zone : Option Zone) : Prop :=
  ∃ z, zone = some z ∧ z.soa ≠ none ∧ z.ns ≠ none ∧ none ∉ z.records.elems

theorem renameRecords_failure (f : String → String) (rs : List (Option Record)) :
    (none ∉ rs ∧ (renameRecords f rs).2 = none) ∨
      (none ∈ rs ∧ (renameRecords f rs).2 = some nilDereference) := by
  induction rs with
  | nil => exact Or.inl ⟨List.not_mem_nil, rfl⟩
  | cons r rs ih =>
    cases r with
    | none => exact Or.inr ⟨List.mem_cons_self, rfl⟩
    | some r =>
      rcases ih with ⟨hnot, hok⟩ | ⟨hmem, hfail⟩
      · exact Or.inl ⟨by simp [hnot], hok⟩
      · exact Or.inr ⟨List.mem_cons_of_mem _ hmem, hfail⟩

/-- The loop fails at a zone that is not complete, and at no other. -/
theorem renameZone_failure (f : String → String) (zone : Option Zone) :
    (Complete zone ∧ (renameZone f zone).2 = none) ∨
      (¬ Complete zone ∧ (renameZone f zone).2 = some nilDereference) := by
  cases zone with
  | none => exact Or.inr ⟨by simp [Complete], rfl⟩
  | some z =>
    obtain ⟨soa, ns, records⟩ := z
    cases soa with
    | none => exact Or.inr ⟨by simp [Complete], rfl⟩
    | some soa =>
      cases ns with
      | none => exact Or.inr ⟨by simp [Complete], rfl⟩
      | some ns =>
        rcases renameRecords_failure f records.elems with ⟨hnot, hok⟩ | ⟨hmem, hfail⟩
        · exact Or.inl ⟨by simp [Complete, hnot], hok⟩
        · exact Or.inr ⟨by simp [Complete, hmem], hfail⟩

theorem renameZones_failure (f : String → String) {keys : List String} (hnodup : keys.Nodup)
    (zones newZones : Zones) :
    ((∀ key ∈ keys, ∀ zone, zones.lookup key = some zone → Complete zone) ∧
        (renameZones f keys zones newZones).2 = none) ∨
      ((∃ key ∈ keys, ∃ zone, zones.lookup key = some zone ∧ ¬ Complete zone) ∧
        (renameZones f keys zones newZones).2 = some nilDereference) := by
  induction keys generalizing zones newZones with
  | nil => exact Or.inl ⟨by simp, rfl⟩
  | cons key keys ih =>
    obtain ⟨hkey, hrest⟩ := List.nodup_cons.mp hnodup
    rw [renameZones]
    cases hlookup : zones.lookup key with
    | none =>
      rcases ih hrest zones newZones with ⟨hall, hok⟩ | ⟨⟨k, hk, hbad⟩, hfail⟩
      · refine Or.inl ⟨fun k hk zone hzone => ?_, hok⟩
        rcases List.mem_cons.mp hk with rfl | hk
        · rw [hlookup] at hzone
          exact absurd hzone (by simp)
        · exact hall k hk zone hzone
      · exact Or.inr ⟨⟨k, List.mem_cons_of_mem _ hk, hbad⟩, hfail⟩
    | some zone =>
      dsimp only
      rcases renameZone_failure f zone with ⟨hcomplete, hnone⟩ | ⟨hbad, hfail⟩
      · obtain ⟨zone', hzone'⟩ : ∃ zone', renameZone f zone = (zone', none) :=
          ⟨_, Prod.ext rfl hnone⟩
        rw [hzone']
        have hother : ∀ k ∈ keys, (zones.insert key zone').lookup k = zones.lookup k := by
          intro k hk
          exact Finmap.lookup_insert_of_ne zones fun h => hkey (h ▸ hk)
        rcases ih hrest (zones.insert key zone') (newZones.insert (f key) zone') with
          ⟨hall, hok⟩ | ⟨⟨k, hk, zone₁, hzone₁, hbad⟩, hfail⟩
        · refine Or.inl ⟨fun k hk zone₁ hzone₁ => ?_, hok⟩
          rcases List.mem_cons.mp hk with rfl | hk
          · obtain rfl := Option.some.inj (hlookup.symm.trans hzone₁)
            exact hcomplete
          · exact hall k hk zone₁ ((hother k hk).trans hzone₁)
        · exact Or.inr ⟨⟨k, List.mem_cons_of_mem _ hk, zone₁, (hother k hk).symm.trans hzone₁, hbad⟩,
            hfail⟩
      · obtain ⟨zone', hzone'⟩ : ∃ zone', renameZone f zone = (zone', some nilDereference) :=
          ⟨_, Prod.ext rfl hfail⟩
        rw [hzone']
        exact Or.inr ⟨⟨key, List.mem_cons_self, zone, hlookup, hbad⟩, rfl⟩

/-- **The decoration panics exactly when some zone is not complete**, whatever the order. -/
theorem decorateZones_failure (order : RangeOrder String (Option Zone)) (zones : Zones) :
    ((∀ key zone, zones.lookup key = some zone → Complete zone) ∧
        (decorateZones order zones).2 = none) ∨
      ((∃ key zone, zones.lookup key = some zone ∧ ¬ Complete zone) ∧
        (decorateZones order zones).2 = some nilDereference) := by
  rcases renameZones_failure addDot (order.nodup zones) zones ∅ with
    ⟨hall, hok⟩ | ⟨⟨key, -, zone, hzone, hbad⟩, hfail⟩
  · refine Or.inl ⟨fun key zone hzone => ?_, hok⟩
    exact hall key ((order.mem_keys zones key).mpr (Finmap.mem_of_lookup_eq_some hzone)) zone hzone
  · exact Or.inr ⟨⟨key, zone, hzone, hbad⟩, hfail⟩

/-- The names are all completed when every zone has its pointers. -/
theorem decorateZones_ok_iff {order : RangeOrder String (Option Zone)} {zones : Zones} :
    (decorateZones order zones).2 = none ↔
      ∀ key zone, zones.lookup key = some zone → Complete zone := by
  rcases decorateZones_failure order zones with ⟨hall, hok⟩ | ⟨⟨key, zone, hzone, hbad⟩, hfail⟩
  · exact ⟨fun _ => hall, fun _ => hok⟩
  · rw [hfail]
    exact ⟨fun h => absurd h (by simp), fun hall => absurd (hall key zone hzone) hbad⟩

/-! ## Loading a document -/

/-- Nothing in any zone ends the program, and if nothing is reported either, every zone has
an SOA entry. -/
def Loadable (parseDuration : String → Except String ℤ) (d : ConfigData) : Prop :=
  d.peers.elems = [] ∨
    (∀ key zone, d.zones.lookup key = some zone → zoneVerdict parseDuration zone ≠ .crash) ∧
      ((∃ key zone, d.zones.lookup key = some zone ∧ zoneVerdict parseDuration zone = .reported) ∨
        ∀ key z, d.zones.lookup key = some (some z) → z.soa ≠ none)

section Load

variable {β : Type} {lib : Libraries β} {env : Env} {c : Config} {filename : String}
  {chain : List String} {signal : Bool}

theorem returns_of_no_peers (h : c.peers.elems = []) :
    Returns (postLoad lib env c filename chain signal) :=
  Or.inr ⟨_, if_pos h⟩

/-- A conversion that fails decides how the load ends. -/
theorem verdict_postLoad_of_error (hpeers : c.peers.elems ≠ []) {e : Failure}
    (h : convertLiterals lib.parseDuration (env.order .convert) c.zones = .error e) :
    verdict (postLoad lib env c filename chain signal)
      = verdict (convertLiterals lib.parseDuration (env.order .convert) c.zones) := by
  unfold postLoad
  rw [if_neg hpeers]
  simp only [h]
  cases e <;> rfl

/-- After a conversion that succeeds, the decoration does. -/
theorem returns_postLoad_of_converted (hpeers : c.peers.elems ≠ []) {converted : Zones}
    (h : convertLiterals lib.parseDuration (env.order .convert) c.zones = .ok converted) :
    Returns (postLoad lib env c filename chain signal) ↔
      ∀ key zone, converted.lookup key = some zone → Complete zone := by
  cases hdec : decorateZones (env.order .decorate) converted with
  | mk zones' failure =>
    have hfailure := decorateZones_failure (env.order .decorate) converted
    rw [hdec] at hfailure
    rcases hfailure with ⟨hall, hnone⟩ | ⟨⟨key, zone, hzone, hbad⟩, hsome⟩
    · obtain rfl : failure = none := hnone
      refine ⟨fun _ => hall, fun _ => Or.inl ⟨{ c with
        filenamePrefix := trimExt filename, chain := chain, reload := signal
        zones := zones' }, ?_⟩⟩
      unfold postLoad
      rw [if_neg hpeers]
      simp only [h, hdec]
    · obtain rfl : failure = some nilDereference := hsome
      have hload : postLoad lib env c filename chain signal = .error nilDereference := by
        unfold postLoad
        rw [if_neg hpeers]
        simp only [h, hdec]
      rw [returns_iff, hload]
      exact ⟨fun h => absurd rfl h, fun hall => absurd (hall key zone hzone) hbad⟩

/-- A zone is complete after its conversion when it has an SOA entry. -/
theorem complete_of_convertZone {parseDuration : String → Except String ℤ} {zone zone' : Option Zone}
    (h : convertZone parseDuration zone = .ok zone') :
    ∃ z, zone = some z ∧ (Complete zone' ↔ z.soa ≠ none) := by
  obtain ⟨z, ns, ns', records, rfl, -, -, hrecords, rfl⟩ := convertZone_ok h
  refine ⟨z, rfl, ⟨?_, fun hsoa => ⟨_, rfl, hsoa, by simp, fun hnil => ?_⟩⟩⟩
  · rintro ⟨z', hz', hsoa, -, -⟩
    rw [← Option.some.inj hz'] at hsoa
    exact hsoa
  · cases hrs : z.records with
    | none =>
      simp only [hrs] at hnil
      exact absurd hnil List.not_mem_nil
    | some rs =>
      simp only [hrs, Option.map_some] at hnil
      obtain ⟨rec, rec', hrec', -⟩ := exists_of_convertRecords hrecords hnil
      exact absurd hrec' (by simp)

/-- After a conversion that succeeds, the zones are complete when the document has an SOA
entry for each. -/
theorem complete_iff_soa {parseDuration : String → Except String ℤ}
    {order : RangeOrder String (Option Zone)} {zones converted : Zones}
    (h : convertLiterals parseDuration order zones = .ok converted) :
    (∀ key zone, converted.lookup key = some zone → Complete zone) ↔
      ∀ key z, zones.lookup key = some (some z) → z.soa ≠ none := by
  constructor
  · intro hall key z hz
    have hrel := convertLiterals_rel h key
    rw [hz] at hrel
    have hcomplete := hall key
    generalize converted.lookup key = found at hrel hcomplete
    cases hrel with
    | some hconverted =>
      obtain ⟨z', hz', hiff⟩ := complete_of_convertZone hconverted
      obtain rfl := Option.some.inj hz'
      exact hiff.mp (hcomplete _ rfl)
  · intro hsoa key zone' hzone'
    obtain ⟨zone, hzone, hconverted⟩ := lookup_convertLiterals h hzone'
    obtain ⟨z, rfl, hiff⟩ := complete_of_convertZone hconverted
    exact hiff.mpr (hsoa key z hzone)

/-- What the loop over the zones ends with is the first bad verdict in its order. -/
theorem verdict_convertLiterals {parseDuration : String → Except String ℤ}
    (order : RangeOrder String (Option Zone)) (zones : Zones) :
    verdict (convertLiterals parseDuration order zones)
      = firstBad ((order.keys zones).map (keyVerdict parseDuration zones)) :=
  verdict_convertZones (order.nodup zones) zones

/-- A loop over the zones that meets none that ends the program does not end it. -/
theorem convertLiterals_ne_crash {parseDuration : String → Except String ℤ}
    (order : RangeOrder String (Option Zone)) {zones : Zones}
    (h : ∀ key zone, zones.lookup key = some zone → zoneVerdict parseDuration zone ≠ .crash) :
    verdict (convertLiterals parseDuration order zones) ≠ .crash := by
  rw [verdict_convertLiterals]
  apply firstBad_ne_crash
  intro v hv
  obtain ⟨key, -, rfl⟩ := List.mem_map.mp hv
  unfold keyVerdict
  cases hzone : zones.lookup key with
  | none => simp
  | some zone => exact h key zone hzone

/-- A loop over the zones that meets nothing but accepted ones completes. -/
theorem convertLiterals_ok_iff {parseDuration : String → Except String ℤ}
    {order : RangeOrder String (Option Zone)} {zones : Zones} :
    (∃ converted, convertLiterals parseDuration order zones = .ok converted) ↔
      ∀ key zone, zones.lookup key = some zone → zoneVerdict parseDuration zone = .accepted := by
  rw [← verdict_eq_accepted, verdict_convertLiterals, firstBad_eq_accepted]
  simp only [List.mem_map, forall_exists_index, and_imp, forall_apply_eq_imp_iff₂]
  constructor
  · intro h key zone hzone
    have hkey := h key ((order.mem_keys zones key).mpr (Finmap.mem_of_lookup_eq_some hzone))
    rwa [keyVerdict, hzone] at hkey
  · intro h key _
    unfold keyVerdict
    cases hzone : zones.lookup key with
    | none => rfl
    | some zone => exact h key zone hzone

/-- A zone that ends the program does so when it is visited first. -/
theorem crash_of_visitFirst (hpeers : c.peers.elems ≠ []) {key : String} {zone : Option Zone}
    (hzone : c.zones.lookup key = some zone)
    (hcrash : zoneVerdict lib.parseDuration zone = .crash) :
    ∃ env, ¬ Returns (postLoad lib env c filename chain signal) := by
  let order := (sortedOrder String (Option Zone)).visitFirst key
  have hkeys : order.keys c.zones
      = key :: ((sortedOrder String (Option Zone)).keys c.zones).erase key :=
    if_pos (Finmap.mem_of_lookup_eq_some hzone)
  have hconvert : verdict (convertLiterals lib.parseDuration order c.zones) = .crash := by
    rw [verdict_convertLiterals, hkeys, List.map_cons, firstBad_cons, keyVerdict, hzone]
    show (zoneVerdict lib.parseDuration zone).andThen _ = .crash
    rw [hcrash]
    rfl
  refine ⟨⟨fun _ => none, fun _ => order⟩, ?_⟩
  rw [returns_iff, not_not]
  cases hresult : convertLiterals lib.parseDuration order c.zones with
  | ok converted =>
    rw [hresult] at hconvert
    exact absurd hconvert (by simp [verdict])
  | error e => exact (verdict_postLoad_of_error hpeers hresult).trans hconvert

/-- Zones of which none ends the program are all accepted, or one of them is reported. -/
theorem accepted_of_not_reported {parseDuration : String → Except String ℤ} {zones : Zones}
    (hcrash : ∀ key zone, zones.lookup key = some zone → zoneVerdict parseDuration zone ≠ .crash)
    (hreported : ¬ ∃ key zone, zones.lookup key = some zone ∧
      zoneVerdict parseDuration zone = .reported) {key : String} {zone : Option Zone}
    (hzone : zones.lookup key = some zone) : zoneVerdict parseDuration zone = .accepted := by
  cases hv : zoneVerdict parseDuration zone with
  | accepted => rfl
  | reported => exact absurd ⟨key, zone, hzone, hv⟩ hreported
  | crash => exact absurd hv (hcrash key zone hzone)

/-- **Which documents are loaded without a panic.**  Whatever the orders of the loops, a load
completes or returns an error exactly when the document is loadable. -/
theorem postLoad_returns_iff (lib : Libraries β) (c : Config) :
    (∀ env filename chain signal, Returns (postLoad lib env c filename chain signal)) ↔
      Loadable lib.parseDuration c.toConfigData := by
  by_cases hpeers : c.peers.elems = []
  · exact ⟨fun _ => Or.inl hpeers, fun _ _ _ _ _ => returns_of_no_peers hpeers⟩
  constructor
  · intro h
    have hcrash : ∀ key zone, c.zones.lookup key = some zone →
        zoneVerdict lib.parseDuration zone ≠ .crash := by
      intro key zone hzone hbad
      obtain ⟨env, hnot⟩ := crash_of_visitFirst hpeers hzone hbad
      exact hnot (h env "" [] false)
    refine Or.inr ⟨hcrash, ?_⟩
    by_cases hreported : ∃ key zone, c.zones.lookup key = some zone ∧
        zoneVerdict lib.parseDuration zone = .reported
    · exact Or.inl hreported
    · right
      let env : Env := ⟨fun _ => none, fun _ => sortedOrder String (Option Zone)⟩
      obtain ⟨converted, hconverted⟩ :
          ∃ converted, convertLiterals lib.parseDuration (env.order .convert) c.zones
            = .ok converted :=
        convertLiterals_ok_iff.mpr fun _ _ hzone => accepted_of_not_reported hcrash hreported hzone
      exact (complete_iff_soa hconverted).mp
        ((returns_postLoad_of_converted hpeers hconverted).mp (h env "" [] false))
  · rintro (hnil | ⟨hcrash, hsoa⟩) env filename chain signal
    · exact absurd hnil hpeers
    · cases hresult : convertLiterals lib.parseDuration (env.order .convert) c.zones with
      | error e =>
        rw [returns_iff, verdict_postLoad_of_error hpeers hresult]
        exact convertLiterals_ne_crash (env.order .convert) hcrash
      | ok converted =>
        rw [returns_postLoad_of_converted hpeers hresult, complete_iff_soa hresult]
        rcases hsoa with ⟨key, zone, hzone, hreported⟩ | hsoa
        · have haccepted := convertLiterals_ok_iff.mp ⟨converted, hresult⟩ key zone hzone
          rw [hreported] at haccepted
          exact absurd haccepted (by decide)
        · exact hsoa

end Load

/-! ## A record with a TTL -/

/-- A document with one peer and an A record that sets its own TTL. -/
def ttlDocument : ConfigData :=
  { onePeerNode.config.toConfigData with
    zones := Finmap.singleton "test" (some {
      soa := some ⟨"test", "admin.test", 60, 1, 60, 1, 120⟩
      ns := some ⟨["ns.test"], 60⟩
      records := some [some ⟨.a, "web.test",
        some [("addresses", .arr [.str "10.0.0.1"]), ("ttl", .num 30 0)], none⟩] }) }

/-- A TTL is a number in every document, and the assertion to `uint32` panics on it. -/
theorem load_panics_on_ttl :
    fromDisk plainLibraries calmEnv (Config.new []) "border.yaml" (loadYAML plainLibraries)
        (some (.doc ttlDocument))
      = .error (.panic "interface conversion: interface \x7b\x7d is float64, not uint32") ∧
    ¬ ∀ env filename chain signal,
      Returns (postLoad plainLibraries env { Config.new [] with toConfigData := ttlDocument }
        filename chain signal) := by
  have hload : postLoad plainLibraries calmEnv { Config.new [] with toConfigData := ttlDocument }
      "border.yaml" [] false
      = .error (.panic "interface conversion: interface \x7b\x7d is float64, not uint32") := rfl
  refine ⟨hload, fun h => ?_⟩
  have hreturns := h calmEnv "border.yaml" [] false
  rw [returns_iff, hload] at hreturns
  exact hreturns rfl

end Border
