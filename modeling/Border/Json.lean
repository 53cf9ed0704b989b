/-
# Decoding JSON into existing values

How Go's `encoding/json` decodes a document into a value that is already there:
absent fields keep what they hold, a pointer that is not nil is decoded into, the
elements of a slice are decoded into as well, a map keeps its entries, and `null`
empties pointers, maps and slices.  A document is a tree (`Json`); a `Decoder` says what
decoding a document into a value leaves in it.  Elements beyond the length of a slice
start from zero: what its spare capacity still holds is left out.

A value of another kind than the field is reported at the end and does not stop the
decoding; an error of a type with a decoding method of its own does.
-/
import Mathlib

namespace GoJson

/-- A JSON document.  The number `num m e` is `m * 10 ^ e`; it was written as an
integer when `e = 0`. -/
inductive Json
  | null
  | bool (b : Bool)
  | num (mantissa exponent : ℤ)
  | str (s : String)
  | arr (items : List Json)
  | obj (fields : List (String × Json))
  deriving Repr

/-- A Go slice: nil, or its elements. -/
abbrev Slice (α : Type) := Option (List α)

/-- The elements of a slice; a nil slice has none. -/
def Slice.elems {α : Type} (s : Slice α) : List α := s.getD []

/-- What stopped or spoiled a decoding. -/
inductive DecodeError
  /-- `json: cannot unmarshal` a value of this kind into the given Go type. -/
  | mismatch (value type : String)
  /-- The error of the type's own decoding method. -/
  | custom (msg : String)
  deriving DecidableEq, Repr

/-- How a decoding went. -/
inductive Status
  | ok
  /-- It went on to the end, and reports the first mismatch it met. -/
  | saved (e : DecodeError)
  | aborted (e : DecodeError)
  deriving DecidableEq, Repr

/-- The status of two decodings one after the other. -/
def Status.andThen : Status → Status → Status
  | .aborted e, _ => .aborted e
  | .saved _, .aborted e => .aborted e
  | .saved e, _ => .saved e
  | .ok, t => t

/-- The error `Unmarshal` returns. -/
def Status.error : Status → Option DecodeError
  | .ok => none
  | .saved e => some e
  | .aborted e => some e

/-- What decoding a document into a value leaves in the value. -/
abbrev Decoder (α : Type) := Json → α → α × Status

/-- The kind of a value, as error texts name it. -/
def Json.kind : Json → String
  | .null => "null"
  | .bool _ => "bool"
  | .num _ _ => "number"
  | .str _ => "string"
  | .arr _ => "array"
  | .obj _ => "object"

/-- A value of the wrong kind leaves the field alone. -/
def mismatch {α : Type} (j : Json) (type : String) (a : α) : α × Status :=
  (a, .saved (.mismatch j.kind type))

/-! ## Scalars -/

def decodeString : Decoder String
  | .null, s => (s, .ok)
  | .str t, _ => (t, .ok)
  | j, s => mismatch j "string" s

/-- An integer type with the given range. -/
def decodeInt (type : String) (lo hi : ℤ) : Decoder ℤ
  | .null, n => (n, .ok)
  | .num m e, n =>
    if e = 0 ∧ lo ≤ m ∧ m ≤ hi then (m, .ok) else mismatch (.num m e) type n
  | j, n => mismatch j type n

def decodeInt64 (type : String) : Decoder ℤ := decodeInt type (-2 ^ 63) (2 ^ 63 - 1)

def decodeUint32 : Decoder ℕ := fun j n =>
  let r := decodeInt "uint32" 0 (2 ^ 32 - 1) j n
  (r.1.toNat, r.2)

/-! ## Byte slices -/

/-- The value of a character of the standard base64 alphabet. -/
def base64Digit (c : Char) : Option ℕ :=
  if 'A' ≤ c ∧ c ≤ 'Z' then some (c.toNat - 'A'.toNat)
  else if 'a' ≤ c ∧ c ≤ 'z' then some (c.toNat - 'a'.toNat + 26)
  else if '0' ≤ c ∧ c ≤ '9' then some (c.toNat - '0'.toNat + 52)
  else if c = '+' then some 62
  else if c = '/' then some 63
  else none

/-- The quanta of a base64 text, the last one padded. -/
def base64Quanta : List Char → Option (List UInt8)
  | [] => some []
  | [a, b, '=', '='] =>
    match base64Digit a, base64Digit b with
    | some x, some y => some [UInt8.ofNat (x * 4 + y / 16)]
    | _, _ => none
  | [a, b, c, '='] =>
    match base64Digit a, base64Digit b, base64Digit c with
    | some x, some y, some z =>
      some [UInt8.ofNat (x * 4 + y / 16), UInt8.ofNat (y * 16 + z / 4)]
    | _, _, _ => none
  | a :: b :: c :: d :: rest =>
    match base64Digit a, base64Digit b, base64Digit c, base64Digit d with
    | some x, some y, some z, some w =>
      (base64Quanta rest).map fun bytes =>
        UInt8.ofNat (x * 4 + y / 16) :: UInt8.ofNat (y * 16 + z / 4)
          :: UInt8.ofNat (z * 64 + w) :: bytes
    | _, _, _, _ => none
  | _ => none

/-- `base64.StdEncoding.Decode`, which skips line breaks. -/
def base64Decode (s : String) : Option (List UInt8) :=
  base64Quanta (s.toList.filter fun c => c ≠ '\r' ∧ c ≠ '\n')

/-- The elements of an array, each decoded into the element at its place or into a zero
value, up to an abort, which leaves the further elements where they are. -/
def decodeItems {α : Type} (zero : α) (d : Decoder α) : List Json → List α → List α × Status
  | [], _ => ([], .ok)
  | j :: js, old =>
    match d j (old.headD zero) with
    | (a, .aborted e) => (a :: old.tail, .aborted e)
    | (a, st) =>
      let (as, st') := decodeItems zero d js old.tail
      (a :: as, st.andThen st')

def decodeByte : Decoder UInt8 := fun j b =>
  let r := decodeInt "uint8" 0 255 j b.toNat
  (UInt8.ofNat r.1.toNat, r.2)

/-- A `[]byte`: base64 in a string, or an array of numbers. -/
def decodeBytes : Decoder (List UInt8)
  | .null, _ => ([], .ok)
  | .str s, bytes =>
    match base64Decode s with
    | some decoded => (decoded, .ok)
    | none => (bytes, .saved (.custom "illegal base64 data"))
  | .arr items, bytes => decodeItems 0 decodeByte items bytes
  | j, bytes => mismatch j "[]uint8" bytes

/-! ## Pointers, slices, maps and structs -/

/-- A pointer: `null` sets it to nil, and a nil one is pointed to a zero value first. -/
def decodePtr {α : Type} (zero : α) (d : Decoder α) : Decoder (Option α)
  | .null, _ => (none, .ok)
  | j, p =>
    let (a, st) := d j (p.getD zero)
    (some a, st)

/-- A slice: as long as the array afterwards. -/
def decodeSlice {α : Type} (zero : α) (d : Decoder α) : Decoder (Slice α)
  | .null, _ => (none, .ok)
  | .arr items, s =>
    let (as, st) := decodeItems zero d items s.elems
    (some as, st)
  | j, s => mismatch j "slice" s

/-- The entries of an object, each decoded into a zero value, up to an abort. -/
def decodeEntries {α : Type} (zero : α) (d : Decoder α) :
    List (String × Json) → Finmap (fun _ : String => α) → Finmap (fun _ : String => α) × Status
  | [], m => (m, .ok)
  | (key, j) :: rest, m =>
    match d j zero with
    | (_, .aborted e) => (m, .aborted e)
    | (a, st) =>
      let (m', st') := decodeEntries zero d rest (m.insert key a)
      (m', st.andThen st')

/-- A map keeps the entries the document does not name. -/
def decodeMap {α : Type} (zero : α) (d : Decoder α) : Decoder (Finmap fun _ : String => α)
  | .null, _ => (∅, .ok)
  | .obj fields, m => decodeEntries zero d fields m
  | j, m => mismatch j "map" m

/-- A character without its letter case.  Outside ASCII, the long s and the Kelvin sign stand for
letters of a field name too. -/
def foldChar (c : Char) : Char :=
  if c = '\u017f' then 's' else if c = '\u212a' then 'k' else c.toLower

/-- Keys are compared without regard to letter case. -/
def foldKey (key : String) : List Char := key.toList.map foldChar

/-- The field a key means: the one of that very name, or else the first that differs
from it in letter case only. -/
def findField {σ : Type} (fields : List (String × Decoder σ)) (key : String) :
    Option (Decoder σ) :=
  match fields.find? fun f => f.1 = key with
  | some f => some f.2
  | none => (fields.find? fun f => foldKey f.1 = foldKey key).map Prod.snd

/-- A key means a field of its name, letter case apart. -/
theorem findField_mem {σ : Type} {fields : List (String × Decoder σ)} {key : String}
    {d : Decoder σ} (h : findField fields key = some d) :
    ∃ f ∈ fields, f.2 = d ∧ foldKey f.1 = foldKey key := by
  unfold findField at h
  split at h
  next f hf =>
    have hname : f.1 = key := by simpa using List.find?_some hf
    exact ⟨f, List.mem_of_find?_eq_some hf, Option.some.inj h, congrArg foldKey hname⟩
  next =>
    obtain ⟨f, hf, hd⟩ := Option.map_eq_some_iff.mp h
    exact ⟨f, List.mem_of_find?_eq_some hf, hd, by simpa using List.find?_some hf⟩

/-- The fields of an object in the order of the document, up to an abort. -/
def decodeFields {σ : Type} (fields : List (String × Decoder σ)) :
    List (String × Json) → σ → σ × Status
  | [], s => (s, .ok)
  | (key, j) :: rest, s =>
    match findField fields key with
    | none => decodeFields fields rest s
    | some d =>
      match d j s with
      | (s', .aborted e) => (s', .aborted e)
      | (s', st) =>
        let (s'', st') := decodeFields fields rest s'
        (s'', st.andThen st')

/-- A struct with the given fields. -/
def decodeStruct {σ : Type} (type : String) (fields : List (String × Decoder σ)) : Decoder σ
  | .null, s => (s, .ok)
  | .obj kvs, s => decodeFields fields kvs s
  | j, s => mismatch j type s

/-- A field of a struct, with how it is read and written. -/
def field {σ α : Type} (name : String) (get : σ → α) (set : σ → α → σ) (d : Decoder α) :
    String × Decoder σ :=
  (name, fun j s => (set s (d j (get s)).1, (d j (get s)).2))

/-! ## Values of any type -/

/-- Write an entry of a `map[string]any`. -/
def setEntry (key : String) (j : Json) : List (String × Json) → List (String × Json)
  | [] => [(key, j)]
  | (k, v) :: rest => if k = key then (k, j) :: rest else (k, v) :: setEntry key j rest

mutual

/-- What decoding a document into an `any` gives: the tree itself, in which the last of
several equal keys counts.  A number stays as it is written.  In Go it becomes a `float64`, which is
the same for an integer between `-2 ^ 53` and `2 ^ 53`; other numbers are rounded there. -/
def Json.toAny : Json → Json
  | .arr items => .arr (Json.toAnyItems items)
  | .obj fields => .obj (Json.toAnyFields fields [])
  | j => j

def Json.toAnyItems : List Json → List Json
  | [] => []
  | j :: js => j.toAny :: Json.toAnyItems js

def Json.toAnyFields : List (String × Json) → List (String × Json) → List (String × Json)
  | [], m => m
  | (key, j) :: rest, m => Json.toAnyFields rest (setEntry key j.toAny m)

end

/-- A `map[string]any`. -/
def decodeAnyMap : Decoder (Option (List (String × Json)))
  | .null, _ => (none, .ok)
  | .obj fields, m => (some (Json.toAnyFields fields (m.getD [])), .ok)
  | j, m => mismatch j "map[string]interface \x7b\x7d" m

/-! ## How a decoding goes

Whether a document can be decoded does not depend on what the value held before: only what
is left in the value does. -/

section Steady

variable {α σ : Type}

/-- The status of a decoding is the same whatever the value held. -/
def Steady (d : Decoder α) : Prop := ∀ j a b, (d j a).2 = (d j b).2

theorem steady_string : Steady decodeString := by
  intro j a b
  cases j <;> rfl

theorem steady_int (type : String) (lo hi : ℤ) : Steady (decodeInt type lo hi) := by
  intro j a b
  cases j with
  | num m e =>
    simp only [decodeInt]
    split
    · rfl
    · rfl
  | _ => rfl

theorem steady_ptr {zero : α} {d : Decoder α} (hd : Steady d) : Steady (decodePtr zero d) := by
  intro j a b
  cases j with
  | null => rfl
  | _ => exact hd _ _ _

theorem decodeItems_cons_snd (zero : α) (d : Decoder α) (j : Json) (js : List Json)
    (old : List α) :
    (decodeItems zero d (j :: js) old).2
      = (d j (old.headD zero)).2.andThen (decodeItems zero d js old.tail).2 := by
  rw [decodeItems]
  rcases d j (old.headD zero) with ⟨a, st⟩
  cases st <;> rfl

theorem steady_items {zero : α} {d : Decoder α} (hd : Steady d) (items : List Json)
    (old old' : List α) : (decodeItems zero d items old).2 = (decodeItems zero d items old').2 := by
  induction items generalizing old old' with
  | nil => rfl
  | cons j js ih =>
    rw [decodeItems_cons_snd, decodeItems_cons_snd, hd j (old.headD zero) (old'.headD zero),
      ih old.tail old'.tail]

theorem steady_slice {zero : α} {d : Decoder α} (hd : Steady d) : Steady (decodeSlice zero d) := by
  intro j a b
  cases j with
  | arr items => exact steady_items hd items a.elems b.elems
  | _ => rfl

theorem steady_entries (zero : α) (d : Decoder α) (kvs : List (String × Json))
    (m m' : Finmap fun _ : String => α) :
    (decodeEntries zero d kvs m).2 = (decodeEntries zero d kvs m').2 := by
  induction kvs generalizing m m' with
  | nil => rfl
  | cons kv rest ih =>
    rw [decodeEntries, decodeEntries]
    rcases d kv.2 zero with ⟨a, st⟩
    cases st with
    | aborted e => rfl
    | ok => exact ih _ _
    | saved e => exact congrArg (Status.andThen (.saved e)) (ih _ _)

/-- The entries of a map are decoded into zero values. -/
theorem steady_map (zero : α) (d : Decoder α) : Steady (decodeMap zero d) := by
  intro j m m'
  cases j with
  | obj kvs => exact steady_entries zero d kvs m m'
  | _ => rfl

theorem steady_field {name : String} {get : σ → α} {set : σ → α → σ} {d : Decoder α}
    (hd : Steady d) : Steady (field name get set d).2 := fun _ _ _ => hd _ _ _

theorem steady_find {fields : List (String × Decoder σ)} (hfields : ∀ f ∈ fields, Steady f.2)
    {key : String} {d : Decoder σ} (h : findField fields key = some d) : Steady d := by
  obtain ⟨f, hf, rfl, -⟩ := findField_mem h
  exact hfields f hf

theorem decodeFields_cons_snd {fields : List (String × Decoder σ)} {key : String} {d : Decoder σ}
    (h : findField fields key = some d) (j : Json) (rest : List (String × Json)) (s : σ) :
    (decodeFields fields ((key, j) :: rest) s).2
      = (d j s).2.andThen (decodeFields fields rest (d j s).1).2 := by
  rw [decodeFields, h]
  dsimp only
  rcases d j s with ⟨s', st⟩
  cases st <;> rfl

theorem steady_fields {fields : List (String × Decoder σ)} (hfields : ∀ f ∈ fields, Steady f.2)
    (kvs : List (String × Json)) (s s' : σ) :
    (decodeFields fields kvs s).2 = (decodeFields fields kvs s').2 := by
  induction kvs generalizing s s' with
  | nil => rfl
  | cons kv rest ih =>
    obtain ⟨key, j⟩ := kv
    cases h : findField fields key with
    | none =>
      rw [decodeFields, decodeFields, h]
      exact ih s s'
    | some d =>
      rw [decodeFields_cons_snd h, decodeFields_cons_snd h, steady_find hfields h j s s',
        ih (d j s).1 (d j s').1]

/-- **How the decoding of a struct goes depends on the document alone** when that holds of
its fields. -/
theorem steady_struct {type : String} {fields : List (String × Decoder σ)}
    (hfields : ∀ f ∈ fields, Steady f.2) : Steady (decodeStruct type fields) := by
  intro j s s'
  cases j with
  | obj kvs => exact steady_fields hfields kvs s s'
  | _ => rfl

end Steady

/-! ## How long byte slices get

No more bytes come out of a string than it has characters, and out of an array than it has
items. -/

/-- The length of a string or of an array. -/
def Json.breadth : Json → ℕ
  | .str s => s.length
  | .arr items => items.length
  | _ => 0

/-- The values a document gives to a field. -/
def Json.under (name : String) : Json → List Json
  | .obj kvs => (kvs.filter fun kv => foldKey name = foldKey kv.1).map Prod.snd
  | _ => []

theorem length_base64Quanta {cs : List Char} {bytes : List UInt8}
    (h : base64Quanta cs = some bytes) : bytes.length ≤ cs.length := by
  fun_induction base64Quanta cs generalizing bytes with
  | case1 =>
    cases h
    exact le_rfl
  | case2 | case4 =>
    cases h
    simp
  | case6 a b c d rest _ _ x y z w hx hy hz hw ih =>
    obtain ⟨tail, htail, rfl⟩ := Option.map_eq_some_iff.mp h
    have hle := ih htail
    simp only [List.length_cons]
    omega
  | _ => exact absurd h (by simp)

theorem length_base64Decode {s : String} {bytes : List UInt8} (h : base64Decode s = some bytes) :
    bytes.length ≤ s.length :=
  calc bytes.length
      ≤ (s.toList.filter fun c => c ≠ '\r' ∧ c ≠ '\n').length := length_base64Quanta h
    _ ≤ s.toList.length := List.length_filter_le ..
    _ = s.length := String.length_toList

section Lengths

variable {α σ : Type}

theorem length_decodeItems (zero : α) (d : Decoder α) (items : List Json) (old : List α) :
    (decodeItems zero d items old).1.length ≤ max items.length old.length := by
  induction items generalizing old with
  | nil => exact Nat.zero_le _
  | cons j js ih =>
    have hrest := ih old.tail
    rw [List.length_tail] at hrest
    rw [decodeItems]
    rcases d j (old.headD zero) with ⟨a, st⟩
    cases st with
    | aborted e =>
      simp only [List.length_cons, List.length_tail]
      omega
    | ok =>
      simp only [List.length_cons]
      omega
    | saved e =>
      simp only [List.length_cons]
      omega

/-- A decoded byte slice is no longer than what it was decoded from, or than before. -/
theorem length_decodeBytes (j : Json) (bytes : List UInt8) :
    (decodeBytes j bytes).1.length ≤ max j.breadth bytes.length := by
  cases j with
  | str s =>
    simp only [decodeBytes]
    cases h : base64Decode s with
    | some decoded => exact (length_base64Decode h).trans (Nat.le_max_left ..)
    | none => exact Nat.le_max_right ..
  | arr items => exact length_decodeItems 0 decodeByte items bytes
  | null => exact Nat.zero_le _
  | _ => exact Nat.le_max_right ..

/-- What every field that is found preserves, the decoding of an object preserves. -/
theorem decodeFields_invariant {P : σ → Prop} {fields : List (String × Decoder σ)}
    {kvs : List (String × Json)} {s : σ}
    (hstep : ∀ kv ∈ kvs, ∀ d, findField fields kv.1 = some d → ∀ s, P s → P (d kv.2 s).1)
    (hs : P s) : P (decodeFields fields kvs s).1 := by
  induction kvs generalizing s with
  | nil => exact hs
  | cons kv rest ih =>
    obtain ⟨key, j⟩ := kv
    have hrest := fun kv' hkv' => hstep kv' (List.mem_cons_of_mem _ hkv')
    rw [decodeFields]
    cases h : findField fields key with
    | none => exact ih hrest hs
    | some d =>
      have hd : P (d j s).1 := hstep (key, j) List.mem_cons_self d h s hs
      dsimp only
      rcases hr : d j s with ⟨s', st⟩
      rw [hr] at hd
      cases st with
      | aborted e => exact hd
      | ok => exact ih hrest hd
      | saved e => exact ih hrest hd

/-- **A byte slice in a struct stays short** when everything the document gives to it is
short and no other field touches it. -/
theorem length_bytesField {type name : String} {get : σ → List UInt8}
    {set : σ → List UInt8 → σ} (hset : ∀ s v, get (set s v) = v)
    {others : List (String × Decoder σ)} (hothers : ∀ f ∈ others, ∀ j s, get (f.2 j s).1 = get s)
    {n : ℕ} {j : Json} (hj : ∀ v ∈ j.under name, v.breadth ≤ n) {s : σ} (hs : (get s).length ≤ n) :
    (get (decodeStruct type (field name get set decodeBytes :: others) j s).1).length ≤ n := by
  cases j with
  | obj kvs =>
    refine decodeFields_invariant (P := fun s => (get s).length ≤ n) ?_ hs
    intro kv hkv d hd s hs
    obtain ⟨f, hf, rfl, hkey⟩ := findField_mem hd
    rcases List.mem_cons.mp hf with rfl | hf
    · have hunder : kv.2 ∈ (Json.obj kvs).under name :=
        List.mem_map_of_mem (List.mem_filter.mpr ⟨hkv, decide_eq_true hkey⟩)
      show (get (set s (decodeBytes kv.2 (get s)).1)).length ≤ n
      rw [hset]
      exact (length_decodeBytes kv.2 (get s)).trans (max_le (hj kv.2 hunder) hs)
    · rw [hothers f hf]
      exact hs
  | _ => exact hs

end Lengths

end GoJson
