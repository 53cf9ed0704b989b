/-
# Encoding values as JSON

The documents that Go's `encoding/json` writes for the values that `GoJson` decodes: bytes as
base64, a nil pointer or slice as `null`, a map with its keys in increasing order, and the
values of an `any` with the keys of every object in that order.

* `base64Decode_base64Encode` : bytes are read back from base64;
* `reads_ptr`, `reads_slice`, `reads_map` : pointers, slices and maps are read back when their
  elements are;
* `toAny_of_keyed` : a document in which no object has a key twice is its own value.

Reading back happens up to a function on the elements, for what an encoding does not keep.
-/
import Border.GoMap
import Border.Json

namespace GoJson

/-! ## Base64 -/

/-- The character of a value below 64 in the standard alphabet. -/
def base64Char (n : ℕ) : Char :=
  if n < 26 then Char.ofNat (65 + n)
  else if n < 52 then Char.ofNat (71 + n)
  else if n < 62 then Char.ofNat (n - 4)
  else if n = 62 then '+'
  else '/'

/-- The characters of bytes, four for three of them, the last quantum padded. -/
def base64Chars : List UInt8 → List Char
  | [] => []
  | [a] => [base64Char (a.toNat / 4), base64Char (a.toNat % 4 * 16), '=', '=']
  | [a, b] =>
    [base64Char (a.toNat / 4), base64Char (a.toNat % 4 * 16 + b.toNat / 16),
      base64Char (b.toNat % 16 * 4), '=']
  | a :: b :: c :: rest =>
    base64Char (a.toNat / 4) :: base64Char (a.toNat % 4 * 16 + b.toNat / 16)
      :: base64Char (b.toNat % 16 * 4 + c.toNat / 64) :: base64Char (c.toNat % 64)
      :: base64Chars rest

/-- `base64.StdEncoding.Encode`. -/
def base64Encode (bytes : List UInt8) : String := String.ofList (base64Chars bytes)

/-- A digit of base64 is read back. -/
theorem base64Digit_base64Char {n : ℕ} (hn : n < 64) : base64Digit (base64Char n) = some n := by
  interval_cases n <;> rfl

/-- The alphabet has no padding and no line breaks. -/
theorem base64Char_ne {n : ℕ} (hn : n < 64) :
    base64Char n ≠ '=' ∧ base64Char n ≠ '\r' ∧ base64Char n ≠ '\n' := by
  interval_cases n <;> decide

/-- A byte from the value of its bits. -/
theorem ofNat_eq_of_mod {n : ℕ} {b : UInt8} (h : n % 256 = b.toNat) : UInt8.ofNat n = b := by
  apply UInt8.toNat_inj.mp
  rw [UInt8.toNat_ofNat', ← h]

/-- **Bytes are read back from their quanta.** -/
theorem base64Quanta_base64Chars (bytes : List UInt8) :
    base64Quanta (base64Chars bytes) = some bytes := by
  fun_induction base64Chars bytes with
  | case1 => rfl
  | case2 a =>
    have ha : a.toNat < 256 := a.toNat_lt
    have hbyte : UInt8.ofNat (a.toNat / 4 * 4 + a.toNat % 4 * 16 / 16) = a :=
      ofNat_eq_of_mod (by omega)
    rw [base64Quanta, base64Digit_base64Char (by omega), base64Digit_base64Char (by omega)]
    show some [UInt8.ofNat (a.toNat / 4 * 4 + a.toNat % 4 * 16 / 16)] = some [a]
    rw [hbyte]
  | case3 a b =>
    have ha : a.toNat < 256 := a.toNat_lt
    have hb : b.toNat < 256 := b.toNat_lt
    have hfirst : UInt8.ofNat (a.toNat / 4 * 4 + (a.toNat % 4 * 16 + b.toNat / 16) / 16) = a :=
      ofNat_eq_of_mod (by omega)
    have hsecond : UInt8.ofNat ((a.toNat % 4 * 16 + b.toNat / 16) * 16 + b.toNat % 16 * 4 / 4) = b :=
      ofNat_eq_of_mod (by omega)
    rw [base64Quanta, base64Digit_base64Char (by omega), base64Digit_base64Char (by omega),
      base64Digit_base64Char (by omega)]
    · show some [UInt8.ofNat _, UInt8.ofNat _] = some [a, b]
      rw [hfirst, hsecond]
    · exact (base64Char_ne (by omega)).1
  | case4 a b c rest ih =>
    have ha : a.toNat < 256 := a.toNat_lt
    have hb : b.toNat < 256 := b.toNat_lt
    have hc : c.toNat < 256 := c.toNat_lt
    have hfirst : UInt8.ofNat (a.toNat / 4 * 4 + (a.toNat % 4 * 16 + b.toNat / 16) / 16) = a :=
      ofNat_eq_of_mod (by omega)
    have hsecond : UInt8.ofNat ((a.toNat % 4 * 16 + b.toNat / 16) * 16
        + (b.toNat % 16 * 4 + c.toNat / 64) / 4) = b :=
      ofNat_eq_of_mod (by omega)
    have hthird : UInt8.ofNat ((b.toNat % 16 * 4 + c.toNat / 64) * 64 + c.toNat % 64) = c :=
      ofNat_eq_of_mod (by omega)
    rw [base64Quanta, base64Digit_base64Char (by omega), base64Digit_base64Char (by omega),
      base64Digit_base64Char (by omega), base64Digit_base64Char (by omega)]
    · show (base64Quanta (base64Chars rest)).map _ = _
      rw [ih]
      show some (UInt8.ofNat _ :: UInt8.ofNat _ :: UInt8.ofNat _ :: rest) = _
      rw [hfirst, hsecond, hthird]
    · intro _ h
      exact absurd h (base64Char_ne (by omega)).1
    · intro h
      exact absurd h (base64Char_ne (by omega)).1

theorem base64Chars_plain (bytes : List UInt8) : ∀ c ∈ base64Chars bytes, c ≠ '\r' ∧ c ≠ '\n' := by
  fun_induction base64Chars bytes with
  | case1 => simp
  | case2 a =>
    have ha : a.toNat < 256 := a.toNat_lt
    simp [base64Char_ne (n := a.toNat / 4) (by omega),
      base64Char_ne (n := a.toNat % 4 * 16) (by omega)]
  | case3 a b =>
    have ha : a.toNat < 256 := a.toNat_lt
    have hb : b.toNat < 256 := b.toNat_lt
    simp [base64Char_ne (n := a.toNat / 4) (by omega),
      base64Char_ne (n := a.toNat % 4 * 16 + b.toNat / 16) (by omega),
      base64Char_ne (n := b.toNat % 16 * 4) (by omega)]
  | case4 a b c rest ih =>
    have ha : a.toNat < 256 := a.toNat_lt
    have hb : b.toNat < 256 := b.toNat_lt
    have hc : c.toNat < 256 := c.toNat_lt
    simp [base64Char_ne (n := a.toNat / 4) (by omega),
      base64Char_ne (n := a.toNat % 4 * 16 + b.toNat / 16) (by omega),
      base64Char_ne (n := b.toNat % 16 * 4 + c.toNat / 64) (by omega),
      base64Char_ne (n := c.toNat % 64) (by omega)]
    exact fun d hd => ih d hd

/-- **Bytes are read back from base64.** -/
theorem base64Decode_base64Encode (bytes : List UInt8) :
    base64Decode (base64Encode bytes) = some bytes := by
  have hfilter : (base64Chars bytes).filter (fun c => c ≠ '\r' ∧ c ≠ '\n') = base64Chars bytes := by
    rw [List.filter_eq_self]
    intro c hc
    simpa using base64Chars_plain bytes c hc
  unfold base64Decode base64Encode
  rw [String.toList_ofList, hfilter]
  exact base64Quanta_base64Chars bytes

/-! ## Scalars -/

theorem decodeString_str (s old : String) : decodeString (.str s) old = (s, .ok) := rfl

/-- An integer within the bounds of its type is read. -/
theorem decodeInt_num (type : String) {lo hi z : ℤ} (hlo : lo ≤ z) (hhi : z ≤ hi) (old : ℤ) :
    decodeInt type lo hi (.num z 0) old = (z, .ok) := if_pos ⟨rfl, hlo, hhi⟩

theorem decodeInt64_num (type : String) {z : ℤ} (hlo : -2 ^ 63 ≤ z) (hhi : z < 2 ^ 63) (old : ℤ) :
    decodeInt64 type (.num z 0) old = (z, .ok) :=
  decodeInt_num type hlo (by omega) old

theorem decodeUint32_num {n : ℕ} (hn : n < 2 ^ 32) (old : ℕ) :
    decodeUint32 (.num n 0) old = (n, .ok) := by
  have h : decodeInt "uint32" 0 (2 ^ 32 - 1) (.num n 0) old = ((n : ℤ), .ok) :=
    decodeInt_num "uint32" (by omega) (by omega) old
  unfold decodeUint32
  rw [h]
  rfl

/-- What `json.Marshal` writes for a `[]byte` that is not nil. -/
def encodeBytes (bytes : List UInt8) : Json := .str (base64Encode bytes)

/-- A slice of bytes is read back. -/
theorem decodeBytes_encodeBytes (bytes old : List UInt8) :
    decodeBytes (encodeBytes bytes) old = (bytes, .ok) := by
  rw [encodeBytes, decodeBytes, base64Decode_base64Encode]

/-! ## Pointers, slices and maps -/

/-- What encodes a value, or fails. -/
abbrev Encoder (α : Type) := α → Except String Json

/-- A sequence of two calls succeeds when both do. -/
theorem exists_of_bind {α β ε : Type} {x : Except ε α} {f : α → Except ε β} {b : β}
    (h : (x >>= f) = .ok b) : ∃ a, x = .ok a ∧ f a = .ok b := by
  cases x with
  | error e => cases h
  | ok a => exact ⟨a, rfl, h⟩

/-- The calls of a loop that collects their results. -/
theorem forall₂_of_mapM {α β ε : Type} {f : α → Except ε β} {l : List α} {r : List β}
    (h : l.mapM f = .ok r) : List.Forall₂ (fun a b => f a = .ok b) l r := by
  induction l generalizing r with
  | nil =>
    cases h
    exact .nil
  | cons a l ih =>
    rw [List.mapM_cons] at h
    cases hf : f a with
    | error e =>
      rw [hf] at h
      cases h
    | ok b =>
      rw [hf] at h
      cases hl : l.mapM f with
      | error e =>
        rw [hl] at h
        cases h
      | ok bs =>
        rw [hl] at h
        cases h
        exact .cons hf (ih hl)

section Elements

variable {α : Type} {zero : α} {enc : Encoder α} {d : Decoder α} {f : α → α}

/-- A pointer: a nil one is `null`. -/
def encodePtr (enc : Encoder α) : Encoder (Option α)
  | none => .ok .null
  | some a => enc a

/-- A slice: a nil one is `null`. -/
def encodeSlice (enc : Encoder α) : Encoder (Slice α)
  | none => .ok .null
  | some as => (as.mapM enc).map .arr

/-- A pointer is read back when its target is, and that is not written as `null`. -/
theorem reads_ptr {p : Option α} {j : Json} (h : encodePtr enc p = .ok j)
    (helem : ∀ a j, p = some a → enc a = .ok j → j ≠ .null ∧ d j zero = (f a, .ok)) :
    decodePtr zero d j none = (p.map f, .ok) := by
  cases p with
  | none =>
    cases h
    rfl
  | some a =>
    obtain ⟨hnull, hd⟩ := helem a j rfl h
    have hptr : decodePtr zero d j none = (some (d j zero).1, (d j zero).2) := by
      cases j with
      | null => exact absurd rfl hnull
      | _ => rfl
    rw [hptr, hd]
    rfl

/-- An item that is read leaves the rest to be read. -/
theorem decodeItems_cons_ok {j : Json} {js : List Json} {old : List α} {a : α}
    (h : d j (old.headD zero) = (a, .ok)) :
    decodeItems zero d (j :: js) old
      = (a :: (decodeItems zero d js old.tail).1, (decodeItems zero d js old.tail).2) := by
  rw [decodeItems, h]
  rfl

/-- The items of an array are read back one by one. -/
theorem reads_items {as : List α} {js : List Json}
    (h : List.Forall₂ (fun a j => d j zero = (f a, .ok)) as js) :
    decodeItems zero d js [] = (as.map f, .ok) := by
  induction h with
  | nil => rfl
  | @cons a j as js ha _ ih =>
    have hhead : d j (([] : List α).headD zero) = (f a, .ok) := ha
    rw [decodeItems_cons_ok hhead, List.tail_nil, ih]
    rfl

/-- A slice is read back when its elements are. -/
theorem reads_slice {as : Slice α} {j : Json} (h : encodeSlice enc as = .ok j)
    (helem : ∀ a ∈ as.elems, ∀ j, enc a = .ok j → d j zero = (f a, .ok)) :
    decodeSlice zero d j none = (as.map (List.map f), .ok) := by
  cases as with
  | none =>
    cases h
    rfl
  | some as =>
    cases hm : as.mapM enc with
    | error e =>
      rw [encodeSlice, hm] at h
      cases h
    | ok js =>
      rw [encodeSlice, hm] at h
      cases h
      have hitems : List.Forall₂ (fun a j => d j zero = (f a, .ok)) as js := by
        have hall := forall₂_of_mapM hm
        rw [List.forall₂_iff_get] at hall ⊢
        obtain ⟨hlen, hget⟩ := hall
        exact ⟨hlen, fun i hi hi' => helem _ (List.get_mem as ⟨i, hi⟩) _ (hget i hi hi')⟩
      have hread := reads_items hitems
      show (some (decodeItems zero d js []).1, (decodeItems zero d js []).2) = _
      rw [hread]
      rfl

/-- The entries of a map in the order of their keys. -/
def sortedEntries (m : Finmap fun _ : String => α) : List (String × α) :=
  (GoMap.sortedKeys m).filterMap fun k => (m.lookup k).map fun a => (k, a)

/-- A map, its keys in increasing order. -/
def encodeMap (enc : Encoder α) : Encoder (Finmap fun _ : String => α) := fun m =>
  ((sortedEntries m).mapM fun e => (enc e.2).map fun j => (e.1, j)).map .obj

/-- A map with a function on its values. -/
def mapValues (f : α → α) (m : Finmap fun _ : String => α) : Finmap fun _ : String => α :=
  GoMap.rekey id f m (GoMap.sortedKeys m) ∅

/-- A key has the image of its value. -/
theorem lookup_mapValues (f : α → α) (m : Finmap fun _ : String => α) (k : String) :
    (mapValues f m).lookup k = (m.lookup k).map f := by
  have hmem := (GoMap.sortedOrder String α).mem_keys m
  cases h : m.lookup k with
  | none =>
    cases h' : (mapValues f m).lookup k with
    | none => rfl
    | some v =>
      obtain ⟨k', a, hk', hid, -⟩ := GoMap.exists_of_lookup_rekey_empty h'
      have hkk : k' = k := hid
      rw [hkk, h] at hk'
      cases hk'
  | some a =>
    have hk : k ∈ GoMap.sortedKeys m := (hmem k).mpr (Finmap.mem_of_lookup_eq_some h)
    exact GoMap.lookup_rekey (f := id) (fun _ _ _ _ hkl => hkl) hk h

theorem sortedKeys_sorted (m : Finmap fun _ : String => α) :
    (GoMap.sortedKeys m).Pairwise (· ≤ ·) := by
  induction m using Finmap.induction_on with
  | H s => exact List.pairwise_insertionSort _ _

/-- The order of the keys is decided by which keys there are. -/
theorem sortedKeys_congr {m m' : Finmap fun _ : String => α} (h : ∀ k, k ∈ m ↔ k ∈ m') :
    GoMap.sortedKeys m = GoMap.sortedKeys m' := by
  have hperm : (GoMap.sortedKeys m).Perm (GoMap.sortedKeys m') := by
    refine (List.perm_ext_iff_of_nodup ((GoMap.sortedOrder String α).nodup m)
      ((GoMap.sortedOrder String α).nodup m')).mpr fun k => ?_
    rw [(GoMap.sortedOrder String α).mem_keys, (GoMap.sortedOrder String α).mem_keys, h]
  exact hperm.eq_of_pairwise' (sortedKeys_sorted m) (sortedKeys_sorted m')

/-- The order of the keys does not depend on the values. -/
theorem sortedEntries_mapValues (f : α → α) (m : Finmap fun _ : String => α) :
    sortedEntries (mapValues f m) = (sortedEntries m).map fun e => (e.1, f e.2) := by
  have hkeys : GoMap.sortedKeys (mapValues f m) = GoMap.sortedKeys m := by
    apply sortedKeys_congr
    intro k
    rw [Finmap.mem_iff, Finmap.mem_iff, lookup_mapValues]
    cases m.lookup k with
    | none => simp
    | some a => simp
  unfold sortedEntries
  rw [hkeys, List.map_filterMap]
  congr 1
  funext k
  rw [lookup_mapValues]
  cases m.lookup k with
  | none => rfl
  | some a => rfl

/-- A function on the values that their encodings do not see. -/
theorem encodeMap_mapValues {f : α → α} (henc : ∀ a, enc (f a) = enc a)
    (m : Finmap fun _ : String => α) : encodeMap enc (mapValues f m) = encodeMap enc m := by
  unfold encodeMap
  rw [sortedEntries_mapValues, List.mapM_map]
  congr 2
  funext e
  show (enc (f e.2)).map _ = _
  rw [henc]

/-- What is encoded alike is encoded alike behind a pointer, and in a slice. -/
theorem encodePtr_map {f : α → α} (henc : ∀ a, enc (f a) = enc a) (p : Option α) :
    encodePtr enc (p.map f) = encodePtr enc p := by
  cases p with
  | none => rfl
  | some a => exact henc a

theorem encodeSlice_map {f : α → α} (henc : ∀ a, enc (f a) = enc a) (as : Slice α) :
    encodeSlice enc (as.map (List.map f)) = encodeSlice enc as := by
  cases as with
  | none => rfl
  | some as =>
    show ((as.map f).mapM enc).map Json.arr = (as.mapM enc).map Json.arr
    rw [List.mapM_map]
    congr 2
    funext a
    exact henc a

/-! Encodings that succeed -/

/-- A loop all of whose calls succeed. -/
theorem exists_mapM {α β ε : Type} {f : α → Except ε β} {l : List α}
    (h : ∀ a ∈ l, ∃ b, f a = .ok b) : ∃ bs, l.mapM f = .ok bs := by
  induction l with
  | nil => exact ⟨[], rfl⟩
  | cons a l ih =>
    obtain ⟨b, hb⟩ := h a List.mem_cons_self
    obtain ⟨bs, hbs⟩ := ih fun a' ha' => h a' (List.mem_cons_of_mem a ha')
    exact ⟨b :: bs, by rw [List.mapM_cons, hb, hbs]; rfl⟩

/-- A pointer, a slice or a map is encoded when its elements are. -/
theorem exists_encodePtr {p : Option α} (h : ∀ a, p = some a → ∃ j, enc a = .ok j) :
    ∃ j, encodePtr enc p = .ok j := by
  cases p with
  | none => exact ⟨.null, rfl⟩
  | some a => exact h a rfl

theorem exists_encodeSlice {as : Slice α} (h : ∀ a ∈ as.elems, ∃ j, enc a = .ok j) :
    ∃ j, encodeSlice enc as = .ok j := by
  cases as with
  | none => exact ⟨.null, rfl⟩
  | some as =>
    obtain ⟨js, hjs⟩ := exists_mapM (l := as) h
    exact ⟨.arr js, by rw [encodeSlice, hjs]; rfl⟩

theorem exists_encodeMap {m : Finmap fun _ : String => α}
    (h : ∀ k a, m.lookup k = some a → ∃ j, enc a = .ok j) : ∃ j, encodeMap enc m = .ok j := by
  obtain ⟨kvs, hkvs⟩ := exists_mapM (l := sortedEntries m)
    (f := fun e => (enc e.2).map fun j => (e.1, j)) fun e he => by
      obtain ⟨k, -, hk⟩ := List.mem_filterMap.mp he
      obtain ⟨a, ha, rfl⟩ := Option.map_eq_some_iff.mp hk
      obtain ⟨j, hj⟩ := h k a ha
      exact ⟨(k, j), by rw [hj]; rfl⟩
  exact ⟨.obj kvs, by rw [encodeMap, hkvs]; rfl⟩

theorem decodeEntries_cons_ok (key : String) {j : Json} {a : α} (h : d j zero = (a, .ok))
    (rest : List (String × Json)) (m : Finmap fun _ : String => α) :
    decodeEntries zero d ((key, j) :: rest) m = decodeEntries zero d rest (m.insert key a) := by
  rw [decodeEntries, h]
  rfl

/-- The entries of an object are read back one by one. -/
theorem reads_entries {m : Finmap fun _ : String => α}
    (helem : ∀ k a j, m.lookup k = some a → enc a = .ok j → d j zero = (f a, .ok))
    (ks : List String) {kvs : List (String × Json)} (acc : Finmap fun _ : String => α)
    (h : List.Forall₂ (fun e kv => (enc e.2).map (fun j => (e.1, j)) = .ok kv)
      (ks.filterMap fun k => (m.lookup k).map fun a => (k, a)) kvs) :
    decodeEntries zero d kvs acc = (GoMap.rekey id f m ks acc, .ok) := by
  induction ks generalizing kvs acc with
  | nil =>
    cases h
    rfl
  | cons k ks ih =>
    cases hk : m.lookup k with
    | none =>
      rw [List.filterMap_cons, hk] at h
      rw [GoMap.rekey, hk]
      exact ih acc h
    | some a =>
      rw [List.filterMap_cons, hk] at h
      cases h with
      | @cons _ kv _ kvs hhead htail =>
        cases henc : enc a with
        | error e =>
          rw [henc] at hhead
          cases hhead
        | ok j =>
          rw [henc] at hhead
          cases hhead
          rw [decodeEntries_cons_ok k (helem k a j hk henc), GoMap.rekey, hk]
          exact ih _ htail

/-- **A map is read back when its values are.** -/
theorem reads_map {m : Finmap fun _ : String => α} {j : Json} (h : encodeMap enc m = .ok j)
    (helem : ∀ k a j, m.lookup k = some a → enc a = .ok j → d j zero = (f a, .ok)) :
    decodeMap zero d j ∅ = (mapValues f m, .ok) := by
  unfold encodeMap at h
  cases hm : (sortedEntries m).mapM fun e => (enc e.2).map fun j => (e.1, j) with
  | error e =>
    rw [hm] at h
    cases h
  | ok kvs =>
    rw [hm] at h
    cases h
    exact reads_entries helem (GoMap.sortedKeys m) ∅ (forall₂_of_mapM hm)

end Elements

/-- A field that is read back. -/
theorem decodeFields_cons_ok {σ : Type} {fields : List (String × Decoder σ)} {key : String}
    {dec : Decoder σ} (hfind : findField fields key = some dec) {j : Json} {s s' : σ}
    (h : dec j s = (s', .ok)) (rest : List (String × Json)) :
    decodeFields fields ((key, j) :: rest) s = decodeFields fields rest s' := by
  rw [decodeFields, hfind]
  dsimp only
  rw [h]
  rfl

/-! ## Values of any type -/

mutual

/-- No object of the document has a key twice. -/
def Json.Keyed : Json → Prop
  | .arr items => Json.KeyedItems items
  | .obj fields => (fields.map Prod.fst).Nodup ∧ Json.KeyedFields fields
  | _ => True

def Json.KeyedItems : List Json → Prop
  | [] => True
  | j :: js => j.Keyed ∧ Json.KeyedItems js

def Json.KeyedFields : List (String × Json) → Prop
  | [] => True
  | (_, j) :: rest => j.Keyed ∧ Json.KeyedFields rest

end

/-- The fields of an object in the order of their keys. -/
def sortFields (fields : List (String × Json)) : List (String × Json) :=
  fields.insertionSort fun a b => a.1 ≤ b.1

mutual

/-- The document with the fields of every object in the order of their keys, which is how
`json.Marshal` writes a map. -/
def Json.sorted : Json → Json
  | .arr items => .arr (Json.sortedItems items)
  | .obj fields => .obj (sortFields (Json.sortedFields fields))
  | j => j

def Json.sortedItems : List Json → List Json
  | [] => []
  | j :: js => j.sorted :: Json.sortedItems js

def Json.sortedFields : List (String × Json) → List (String × Json)
  | [] => []
  | (key, j) :: rest => (key, j.sorted) :: Json.sortedFields rest

end

theorem keyedFields_iff {fields : List (String × Json)} :
    Json.KeyedFields fields ↔ ∀ f ∈ fields, f.2.Keyed := by
  induction fields with
  | nil => simp [Json.KeyedFields]
  | cons f rest ih => simp [Json.KeyedFields, ih]

/-- A key that is new goes to the end. -/
theorem setEntry_of_notMem {key : String} {m : List (String × Json)}
    (h : key ∉ m.map Prod.fst) (j : Json) : setEntry key j m = m ++ [(key, j)] := by
  induction m with
  | nil => rfl
  | cons e m ih =>
    have hne : e.1 ≠ key := fun heq => h (by simp [heq])
    have hm : key ∉ m.map Prod.fst := fun hmem => h (List.mem_cons_of_mem _ hmem)
    rw [setEntry, if_neg hne, ih hm]
    rfl

mutual

/-- **A document in which no object has a key twice is its own value.** -/
theorem toAny_of_keyed : ∀ {j : Json}, j.Keyed → j.toAny = j
  | .arr items, h => by
    rw [Json.toAny, toAnyItems_of_keyed h]
  | .obj fields, h => by
    rw [Json.toAny, toAnyFields_of_keyed h.2 [] (by simpa using h.1), List.nil_append]
  | .null, _ => rfl
  | .bool _, _ => rfl
  | .num _ _, _ => rfl
  | .str _, _ => rfl

theorem toAnyItems_of_keyed : ∀ {items : List Json}, Json.KeyedItems items →
    Json.toAnyItems items = items
  | [], _ => rfl
  | j :: js, h => by
    rw [Json.toAnyItems, toAny_of_keyed h.1, toAnyItems_of_keyed h.2]

theorem toAnyFields_of_keyed : ∀ {fields : List (String × Json)}, Json.KeyedFields fields →
    ∀ m : List (String × Json), ((m ++ fields).map Prod.fst).Nodup →
      Json.toAnyFields fields m = m ++ fields
  | [], _, m, _ => by rw [Json.toAnyFields, List.append_nil]
  | (key, j) :: rest, h, m, hnodup => by
    have hkey : key ∉ m.map Prod.fst := by
      rw [List.map_append, List.nodup_append] at hnodup
      intro hmem
      exact hnodup.2.2 key hmem key (by simp) rfl
    have happend : m ++ [(key, j)] ++ rest = m ++ (key, j) :: rest := by simp
    rw [Json.toAnyFields, toAny_of_keyed h.1, setEntry_of_notMem hkey,
      toAnyFields_of_keyed h.2 _ (by rwa [happend]), happend]

end

/-! ### Keys in order -/

theorem sortedFields_eq_map (fields : List (String × Json)) :
    Json.sortedFields fields = fields.map fun f => (f.1, f.2.sorted) := by
  induction fields with
  | nil => rfl
  | cons f rest ih => rw [Json.sortedFields, ih, List.map_cons]

/-- Sorting keeps the fields. -/
theorem perm_sortFields (fields : List (String × Json)) : (sortFields fields).Perm fields :=
  List.perm_insertionSort _ _

theorem sortFields_sortFields (fields : List (String × Json)) :
    sortFields (sortFields fields) = sortFields fields := by
  have : Std.Total fun a b : String × Json => a.1 ≤ b.1 := ⟨fun a b => le_total a.1 b.1⟩
  have : IsTrans (String × Json) fun a b => a.1 ≤ b.1 := ⟨fun _ _ _ => le_trans⟩
  exact (List.pairwise_insertionSort _ fields).insertionSort_eq

/-- Sorting looks at the keys only. -/
theorem sortedFields_sortFields (fields : List (String × Json)) :
    Json.sortedFields (sortFields fields) = sortFields (Json.sortedFields fields) := by
  rw [sortedFields_eq_map, sortedFields_eq_map]
  exact List.map_insertionSort _ _ _ _ fun _ _ _ _ => Iff.rfl

mutual

/-- Sorting once is enough. -/
theorem sorted_sorted : ∀ j : Json, j.sorted.sorted = j.sorted
  | .arr items => by rw [Json.sorted, Json.sorted, sortedItems_sortedItems]
  | .obj fields => by
    rw [Json.sorted, Json.sorted, sortedFields_sortFields, sortedFields_sortedFields,
      sortFields_sortFields]
  | .null => rfl
  | .bool _ => rfl
  | .num _ _ => rfl
  | .str _ => rfl

theorem sortedItems_sortedItems : ∀ items : List Json,
    Json.sortedItems (Json.sortedItems items) = Json.sortedItems items
  | [] => rfl
  | j :: js => by
    rw [Json.sortedItems, Json.sortedItems, sorted_sorted j, sortedItems_sortedItems js]

theorem sortedFields_sortedFields : ∀ fields : List (String × Json),
    Json.sortedFields (Json.sortedFields fields) = Json.sortedFields fields
  | [] => rfl
  | (key, j) :: rest => by
    rw [Json.sortedFields, Json.sortedFields, sorted_sorted j, sortedFields_sortedFields rest]

end

mutual

/-- Sorting leaves the keys of every object distinct. -/
theorem keyed_sorted : ∀ {j : Json}, j.Keyed → j.sorted.Keyed
  | .arr _, h => keyedItems_sortedItems h
  | .obj fields, h => by
    have hkeys : ((sortFields (Json.sortedFields fields)).map Prod.fst).Perm
        (fields.map Prod.fst) := by
      have hmap := (perm_sortFields (Json.sortedFields fields)).map Prod.fst
      have hsame : (Json.sortedFields fields).map Prod.fst = fields.map Prod.fst := by
        rw [sortedFields_eq_map, List.map_map]
        rfl
      rwa [hsame] at hmap
    refine ⟨hkeys.nodup_iff.mpr h.1, ?_⟩
    rw [keyedFields_iff]
    intro f hf
    exact keyedFields_sortedFields h.2 f ((perm_sortFields _).mem_iff.mp hf)
  | .null, _ => trivial
  | .bool _, _ => trivial
  | .num _ _, _ => trivial
  | .str _, _ => trivial

theorem keyedItems_sortedItems : ∀ {items : List Json}, Json.KeyedItems items →
    Json.KeyedItems (Json.sortedItems items)
  | [], _ => trivial
  | _ :: _, h => ⟨keyed_sorted h.1, keyedItems_sortedItems h.2⟩

theorem keyedFields_sortedFields : ∀ {fields : List (String × Json)}, Json.KeyedFields fields →
    ∀ f ∈ Json.sortedFields fields, f.2.Keyed
  | (key, j) :: rest, h, f, hf => by
    rcases List.mem_cons.mp hf with rfl | hf
    · exact keyed_sorted h.1
    · exact keyedFields_sortedFields h.2 f hf

end

/-- Setting an entry repeats no key and changes no other entry. -/
theorem keys_setEntry (key : String) (j : Json) {m : List (String × Json)}
    (h : (m.map Prod.fst).Nodup) :
    ((setEntry key j m).map Prod.fst).Nodup ∧
      ∀ f ∈ setEntry key j m, f = (key, j) ∨ f ∈ m := by
  by_cases hkey : key ∈ m.map Prod.fst
  · induction m with
    | nil => cases hkey
    | cons e m ih =>
      obtain ⟨k, v⟩ := e
      rw [List.map_cons, List.nodup_cons] at h
      by_cases hk : k = key
      · rw [setEntry, if_pos hk]
        refine ⟨List.nodup_cons.mpr h, ?_⟩
        intro f hf
        rcases List.mem_cons.mp hf with rfl | hf
        · exact Or.inl (by rw [hk])
        · exact Or.inr (List.mem_cons_of_mem _ hf)
      · have hm : key ∈ m.map Prod.fst := by
          rcases List.mem_cons.mp hkey with heq | hm
          · exact absurd heq.symm hk
          · exact hm
        obtain ⟨hnodup, hmem⟩ := ih h.2 hm
        rw [setEntry, if_neg hk]
        refine ⟨List.nodup_cons.mpr ⟨?_, hnodup⟩, ?_⟩
        · intro hin
          obtain ⟨f, hf, hfk⟩ := List.mem_map.mp hin
          rcases hmem f hf with rfl | hf
          · exact hk hfk.symm
          · exact h.1 (List.mem_map.mpr ⟨f, hf, hfk⟩)
        · intro f hf
          rcases List.mem_cons.mp hf with rfl | hf
          · exact Or.inr List.mem_cons_self
          · exact (hmem f hf).imp_right (List.mem_cons_of_mem _)
  · rw [setEntry_of_notMem hkey]
    refine ⟨?_, ?_⟩
    · rw [List.map_append, List.nodup_append]
      refine ⟨h, List.nodup_singleton _, ?_⟩
      intro a ha b hb hab
      have hbkey : b = key := List.mem_singleton.mp hb
      exact hkey (hbkey ▸ hab ▸ ha)
    · intro f hf
      rcases List.mem_append.mp hf with hf | hf
      · exact Or.inr hf
      · exact Or.inl (List.mem_singleton.mp hf)

mutual

/-- In the value of a document no object has a key twice. -/
theorem keyed_toAny : ∀ j : Json, j.toAny.Keyed
  | .arr items => keyedItems_toAnyItems items
  | .obj fields => by
    have h := keyed_toAnyFields fields (m := []) List.nodup_nil (by simp)
    exact ⟨h.1, keyedFields_iff.mpr h.2⟩
  | .null => trivial
  | .bool _ => trivial
  | .num _ _ => trivial
  | .str _ => trivial

theorem keyedItems_toAnyItems : ∀ items : List Json, Json.KeyedItems (Json.toAnyItems items)
  | [] => trivial
  | j :: js => ⟨keyed_toAny j, keyedItems_toAnyItems js⟩

theorem keyed_toAnyFields : ∀ (fields : List (String × Json)) {m : List (String × Json)},
    (m.map Prod.fst).Nodup → (∀ f ∈ m, f.2.Keyed) →
      ((Json.toAnyFields fields m).map Prod.fst).Nodup ∧
        ∀ f ∈ Json.toAnyFields fields m, f.2.Keyed
  | [], _, hnodup, hm => ⟨hnodup, hm⟩
  | (key, j) :: rest, m, hnodup, hm => by
    obtain ⟨hnodup', hmem⟩ := keys_setEntry key j.toAny hnodup
    refine keyed_toAnyFields rest hnodup' ?_
    intro f hf
    rcases hmem f hf with rfl | hf
    · exact keyed_toAny j
    · exact hm f hf

end

/-- A `map[string]any`: a nil one is `null`. -/
def encodeAnyMap : Option (List (String × Json)) → Json
  | none => .null
  | some m => (Json.obj m).sorted

/-- The entries of a `map[string]any` in the order of their keys, as those of all objects in
its values. -/
def sortedAnyMap (m : Option (List (String × Json))) : Option (List (String × Json)) :=
  m.map fun fields => sortFields (Json.sortedFields fields)

/-- The text of a map does not depend on the order of its fields. -/
theorem encodeAnyMap_sortedAnyMap (m : Option (List (String × Json))) :
    encodeAnyMap (sortedAnyMap m) = encodeAnyMap m := by
  cases m with
  | none => rfl
  | some m => exact sorted_sorted (.obj m)

/-- **A `map[string]any` is read back** in the order of its keys. -/
theorem decodeAnyMap_encodeAnyMap {m : Option (List (String × Json))}
    (h : ∀ fields, m = some fields → (Json.obj fields).Keyed) :
    decodeAnyMap (encodeAnyMap m) none = (sortedAnyMap m, .ok) := by
  cases m with
  | none => rfl
  | some m =>
    have hkeyed := keyed_sorted (h m rfl)
    rw [Json.sorted] at hkeyed
    have hany := toAnyFields_of_keyed hkeyed.2 [] hkeyed.1
    show (some (Json.toAnyFields (sortFields (Json.sortedFields m)) []), Status.ok) = _
    rw [hany]
    rfl

/-! ## What a decoding that succeeds yields -/

section Yields

variable {α σ : Type} {zero : α} {d : Decoder α} {P : α → Prop}

/-- A decoding that succeeds keeps the property. -/
def Yields (d : Decoder α) (P : α → Prop) : Prop := ∀ j a, P a → (d j a).2 = .ok → P (d j a).1

/-- From the zero value on as well, it brings the property about. -/
def YieldsFrom (zero : α) (d : Decoder α) (P : α → Prop) : Prop :=
  ∀ j a, a = zero ∨ P a → (d j a).2 = .ok → P (d j a).1

/-- In an array or a map the zero value is where decoding starts. -/
theorem Yields.yieldsFrom (h : Yields d P) (zero : α) (hzero : P zero) : YieldsFrom zero d P := by
  intro j a ha hok
  rcases ha with rfl | ha
  · exact h j _ hzero hok
  · exact h j a ha hok

theorem yields_trivial (d : Decoder α) : Yields d fun _ => True := fun _ _ _ _ => trivial

/-- Both parts have to be without an error. -/
theorem andThen_ok {st st' : Status} (h : st.andThen st' = .ok) : st = .ok ∧ st' = .ok := by
  cases st with
  | ok => exact ⟨rfl, h⟩
  | saved e =>
    cases st' with
    | _ => cases h
  | aborted e => cases h

/-- What decoding yields of an element it yields behind a pointer. -/
theorem yields_ptr (hd : YieldsFrom zero d P) :
    Yields (decodePtr zero d) fun p => ∀ a, p = some a → P a := by
  intro j p hp hok
  cases j with
  | null =>
    intro a ha
    cases ha
  | _ =>
    intro a ha
    cases ha
    refine hd _ (p.getD zero) ?_ hok
    cases p with
    | none => exact Or.inl rfl
    | some b => exact Or.inr (hp b rfl)

/-- The elements that an array had may be decoded into once more. -/
theorem yields_items (hd : YieldsFrom zero d P) (items : List Json) {old : List α}
    (hold : ∀ a ∈ old, P a) (hok : (decodeItems zero d items old).2 = .ok) :
    ∀ a ∈ (decodeItems zero d items old).1, P a := by
  induction items generalizing old with
  | nil =>
    intro a ha
    cases ha
  | cons j js ih =>
    rw [decodeItems_cons_snd] at hok
    obtain ⟨hhead, htail⟩ := andThen_ok hok
    have hj : d j (old.headD zero) = ((d j (old.headD zero)).1, .ok) := Prod.ext rfl hhead
    have hP : P (d j (old.headD zero)).1 := by
      refine hd j _ ?_ hhead
      cases old with
      | nil => exact Or.inl rfl
      | cons a old => exact Or.inr (hold a List.mem_cons_self)
    have hrest := ih (fun a ha => hold a (List.mem_of_mem_tail ha)) htail
    rw [decodeItems_cons_ok hj]
    intro a ha
    rcases List.mem_cons.mp ha with rfl | ha
    · exact hP
    · exact hrest a ha

theorem yields_slice (hd : YieldsFrom zero d P) :
    Yields (decodeSlice zero d) fun s => ∀ a ∈ s.elems, P a := by
  intro j s hs hok
  cases j with
  | null =>
    intro a ha
    cases ha
  | arr items => exact yields_items hd items hs hok
  | _ => cases hok

theorem decodeEntries_cons_snd (key : String) (j : Json) (rest : List (String × Json))
    (m : Finmap fun _ : String => α) (hok : (decodeEntries zero d ((key, j) :: rest) m).2 = .ok) :
    (d j zero).2 = .ok := by
  rw [decodeEntries] at hok
  rcases hj : d j zero with ⟨a, st⟩
  rw [hj] at hok
  cases st with
  | ok => rfl
  | saved e => exact (andThen_ok hok).1
  | aborted e => cases hok

/-- A map keeps the entries that it had. -/
theorem yields_entries (hd : ∀ j, (d j zero).2 = .ok → P (d j zero).1)
    (kvs : List (String × Json)) {m : Finmap fun _ : String => α}
    (hm : ∀ k a, m.lookup k = some a → P a) (hok : (decodeEntries zero d kvs m).2 = .ok) :
    ∀ k a, (decodeEntries zero d kvs m).1.lookup k = some a → P a := by
  induction kvs generalizing m with
  | nil => exact hm
  | cons kv rest ih =>
    obtain ⟨key, j⟩ := kv
    have hj := decodeEntries_cons_snd key j rest m hok
    have hcons := decodeEntries_cons_ok key (Prod.ext rfl hj : d j zero = (_, .ok)) rest m
    rw [hcons] at hok ⊢
    refine ih ?_ hok
    intro k a ha
    by_cases hk : k = key
    · rw [hk, Finmap.lookup_insert] at ha
      cases ha
      exact hd j hj
    · rw [Finmap.lookup_insert_of_ne _ hk] at ha
      exact hm k a ha

theorem yields_map (hd : YieldsFrom zero d P) :
    Yields (decodeMap zero d) fun m => ∀ k a, m.lookup k = some a → P a := by
  intro j m hm hok
  cases j with
  | null =>
    intro k a ha
    exact absurd (show (none : Option α) = some a from ha) (by simp)
  | obj kvs => exact yields_entries (fun j hj => hd j zero (Or.inl rfl) hj) kvs hm hok
  | _ => cases hok

/-- A field keeps what holds of the whole when its value keeps what that needs of it. -/
theorem yields_field {Q : σ → Prop} {name : String} {get : σ → α} {set : σ → α → σ}
    (hd : Yields d P) (hget : ∀ s, Q s → P (get s)) (hset : ∀ s v, Q s → P v → Q (set s v)) :
    Yields (field name get set d).2 Q := by
  intro j s hs hok
  exact hset s _ hs (hd j (get s) (hget s hs) hok)

/-- A key that is no field is passed over. -/
theorem decodeFields_cons_skip {fields : List (String × Decoder σ)} {key : String}
    (h : findField fields key = none) (j : Json) (rest : List (String × Json)) (s : σ) :
    decodeFields fields ((key, j) :: rest) s = decodeFields fields rest s := by
  rw [decodeFields, h]

/-- Decoding that does not fail has read the first field and goes on from there. -/
theorem decodeFields_cons_of_ok {fields : List (String × Decoder σ)} {key : String}
    {dec : Decoder σ} (h : findField fields key = some dec) {j : Json}
    {rest : List (String × Json)} {s : σ}
    (hok : (decodeFields fields ((key, j) :: rest) s).2 = .ok) :
    (dec j s).2 = .ok ∧
      decodeFields fields ((key, j) :: rest) s = decodeFields fields rest (dec j s).1 := by
  rw [decodeFields_cons_snd h] at hok
  obtain ⟨hj, -⟩ := andThen_ok hok
  exact ⟨hj, decodeFields_cons_ok h (Prod.ext rfl hj) rest⟩

/-- A property of a struct that decoding each field keeps. -/
theorem yields_struct {Q : σ → Prop} {type : String} {fields : List (String × Decoder σ)}
    (hfields : ∀ f ∈ fields, Yields f.2 Q) : Yields (decodeStruct type fields) Q := by
  intro j s hs hok
  cases j with
  | null => exact hs
  | obj kvs =>
    have hok' : (decodeFields fields kvs s).2 = .ok := hok
    show Q (decodeFields fields kvs s).1
    clear hok
    induction kvs generalizing s with
    | nil => exact hs
    | cons kv rest ih =>
      obtain ⟨key, j⟩ := kv
      cases hfind : findField fields key with
      | none =>
        rw [decodeFields_cons_skip hfind] at hok' ⊢
        exact ih s hs hok'
      | some dec =>
        obtain ⟨hj, hnext⟩ := decodeFields_cons_of_ok hfind hok'
        rw [hnext] at hok' ⊢
        obtain ⟨f, hf, rfl, -⟩ := findField_mem hfind
        exact ih _ (hfields f hf j s hs hj) hok'
  | _ => cases hok

/-- A number is decoded when it is within the bounds of its type. -/
theorem yields_int (type : String) (lo hi : ℤ) :
    Yields (decodeInt type lo hi) fun z => lo ≤ z ∧ z ≤ hi := by
  intro j z hz hok
  cases j with
  | num m e =>
    by_cases h : e = 0 ∧ lo ≤ m ∧ m ≤ hi
    · rw [decodeInt, if_pos h]
      exact h.2
    · rw [decodeInt, if_neg h] at hok
      cases hok
  | null => exact hz
  | _ => cases hok

theorem yields_int64 (type : String) :
    Yields (decodeInt64 type) fun z => -2 ^ 63 ≤ z ∧ z < 2 ^ 63 := by
  intro j z hz hok
  have h := yields_int type (-2 ^ 63) (2 ^ 63 - 1) j z ⟨hz.1, by omega⟩ hok
  exact ⟨h.1, by have := h.2; show (decodeInt _ _ _ _ _).1 < _; omega⟩

theorem yields_uint32 : Yields decodeUint32 fun n => n < 2 ^ 32 := by
  intro j n hn hok
  have h := yields_int "uint32" 0 (2 ^ 32 - 1) j n ⟨by omega, by omega⟩ hok
  show (decodeInt "uint32" 0 (2 ^ 32 - 1) j n).1.toNat < 2 ^ 32
  omega

/-- A decoded `map[string]any` has every key once. -/
theorem yields_anyMap :
    Yields decodeAnyMap fun m => ∀ fields, m = some fields → (Json.obj fields).Keyed := by
  intro j m hm hok
  cases j with
  | null =>
    intro fields h
    cases h
  | obj kvs =>
    intro fields h
    cases h
    have hold : ((m.getD []).map Prod.fst).Nodup ∧ ∀ f ∈ m.getD [], f.2.Keyed := by
      cases m with
      | none => exact ⟨List.nodup_nil, by simp⟩
      | some old => exact ⟨(hm old rfl).1, keyedFields_iff.mp (hm old rfl).2⟩
    have hnew := keyed_toAnyFields kvs hold.1 hold.2
    exact ⟨hnew.1, keyedFields_iff.mpr hnew.2⟩
  | _ => cases hok

end Yields

/-! ## Short values for a byte slice -/

/-- A byte that does not fit is an error that decoding saves. -/
theorem decodeByte_snd (j : Json) (b : UInt8) (e : DecodeError) : (decodeByte j b).2 ≠ .aborted e := by
  unfold decodeByte
  cases j with
  | num m x =>
    simp only [decodeInt]
    split <;> simp [mismatch]
  | _ => simp [decodeInt, mismatch]

/-- An array of numbers gives as many bytes as it has items. -/
theorem length_decodeItems_byte (items : List Json) (old : List UInt8) :
    (decodeItems 0 decodeByte items old).1.length = items.length := by
  induction items generalizing old with
  | nil => rfl
  | cons j js ih =>
    rw [decodeItems]
    rcases h : decodeByte j (old.headD 0) with ⟨a, st⟩
    cases st with
    | aborted e => exact absurd (congrArg Prod.snd h) (decodeByte_snd j _ e)
    | ok => exact congrArg (· + 1) (ih old.tail)
    | saved e => exact congrArg (· + 1) (ih old.tail)

/-- A short value makes a byte slice short, or leaves it as it is. -/
theorem decodeBytes_short {j : Json} {n : ℕ} (hj : j.breadth ≤ n) (old : List UInt8) :
    (decodeBytes j old).1.length ≤ n ∨ (decodeBytes j old).1 = old := by
  cases j with
  | null => exact Or.inl (Nat.zero_le n)
  | str s =>
    rw [decodeBytes]
    cases h : base64Decode s with
    | some decoded => exact Or.inl ((length_base64Decode h).trans hj)
    | none => exact Or.inr rfl
  | arr items =>
    rw [decodeBytes, length_decodeItems_byte]
    exact Or.inl hj
  | _ => exact Or.inr rfl

/-- **A byte slice in a struct gets short, or stays as it is**, when everything the document gives
to it is short and no other field touches it. -/
theorem bytesField_short {σ : Type} {type name : String} {get : σ → List UInt8}
    {set : σ → List UInt8 → σ} (hset : ∀ s v, get (set s v) = v)
    {others : List (String × Decoder σ)} (hothers : ∀ f ∈ others, ∀ j s, get (f.2 j s).1 = get s)
    {n : ℕ} {j : Json} (hj : ∀ v ∈ j.under name, v.breadth ≤ n) (s : σ) :
    (get (decodeStruct type (field name get set decodeBytes :: others) j s).1).length ≤ n ∨
      get (decodeStruct type (field name get set decodeBytes :: others) j s).1 = get s := by
  cases j with
  | obj kvs =>
    refine decodeFields_invariant (P := fun s' => (get s').length ≤ n ∨ get s' = get s) ?_ (Or.inr rfl)
    intro kv hkv d hd s' hs'
    obtain ⟨f, hf, rfl, hkey⟩ := findField_mem hd
    rcases List.mem_cons.mp hf with rfl | hf
    · have hunder : kv.2 ∈ (Json.obj kvs).under name :=
        List.mem_map_of_mem (List.mem_filter.mpr ⟨hkv, decide_eq_true hkey⟩)
      show (get (set s' (decodeBytes kv.2 (get s')).1)).length ≤ n ∨
        get (set s' (decodeBytes kv.2 (get s')).1) = get s
      rw [hset]
      rcases decodeBytes_short (hj kv.2 hunder) (get s') with h | h
      · exact Or.inl h
      · rw [h]
        exact hs'
    · rw [hothers f hf]
      exact hs'
  | _ => exact Or.inr rfl

end GoJson
