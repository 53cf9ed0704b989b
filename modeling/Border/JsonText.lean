/-
# The text of a JSON document

How Go's `encoding/json` reads the text of a document.  Its scanner is a machine that takes
one byte after the other, with a stack of the arrays and objects that are open.  The bytes
of a string or a number are collected, and converted when it ends: escapes are resolved,
UTF-8 is decoded, and what is no UTF-8 becomes U+FFFD.  The modes of the machine are the
`state` functions of the scanner; its limit on the depth of a document is left out, and a
negative zero is read as a zero.

`parse_light` says that a string, an array and the values of an object are shorter than
the text they were read from.
-/
import Border.Json

namespace GoJson

/-! ## Bytes and characters -/

/-- The character of a byte, which the scanner compares it with. -/
def glyph (b : UInt8) : Char := Char.ofNat b.toNat

/-- The byte of an ASCII character. -/
def ascii (c : Char) : UInt8 := UInt8.ofNat c.toNat

def isSpace (b : UInt8) : Bool :=
  glyph b = ' ' || glyph b = '\t' || glyph b = '\r' || glyph b = '\n'

def isDigit (b : UInt8) : Bool := 48 ≤ b.toNat && b.toNat ≤ 57

/-- The value of a hexadecimal digit. -/
def hexDigit (b : UInt8) : Option ℕ :=
  let n := b.toNat
  if 48 ≤ n ∧ n ≤ 57 then some (n - 48)
  else if 97 ≤ n ∧ n ≤ 102 then some (n - 87)
  else if 65 ≤ n ∧ n ≤ 70 then some (n - 55)
  else none

/-- The digit of a value below sixteen, in lower case. -/
def hexChar (n : ℕ) : UInt8 := if n < 10 then UInt8.ofNat (48 + n) else UInt8.ofNat (87 + n)

/-! ## Syntax errors -/

/-- `SyntaxError`: what the scanner did not expect, and where. -/
inductive SyntaxError
  | unexpectedEnd
  | invalidCharacter (b : UInt8) (context : String)
  deriving DecidableEq, Repr

/-- A byte in single quotes, as `strconv.Quote` shows the character of its value. -/
def quoteByte (b : UInt8) : String :=
  let hex := String.ofList [glyph (hexChar (b.toNat / 16)), glyph (hexChar (b.toNat % 16))]
  let shown :=
    match b.toNat with
    | 7 => "\\a"
    | 8 => "\\b"
    | 9 => "\\t"
    | 10 => "\\n"
    | 11 => "\\v"
    | 12 => "\\f"
    | 13 => "\\r"
    | 39 => "\\\x27"
    | 92 => "\\\\"
    | n =>
      if n < 32 ∨ n = 127 then "\\x" ++ hex
      else if 128 ≤ n ∧ n ≤ 160 ∨ n = 173 then "\\u00" ++ hex
      else String.singleton (glyph b)
  "\x27" ++ shown ++ "\x27"

/-- `SyntaxError.Error`. -/
def SyntaxError.text : SyntaxError → String
  | .unexpectedEnd => "unexpected end of JSON input"
  | .invalidCharacter b context => "invalid character " ++ quoteByte b ++ " " ++ context

/-! ## Strings and numbers -/

/-- `getu4`: an escape of four hexadecimal digits, and what follows it. -/
def getu4 : List UInt8 → Option (ℕ × List UInt8)
  | b :: u :: h₁ :: h₂ :: h₃ :: h₄ :: rest =>
    if glyph b = '\\' ∧ glyph u = 'u' then
      match hexDigit h₁, hexDigit h₂, hexDigit h₃, hexDigit h₄ with
      | some a₁, some a₂, some a₃, some a₄ => some (((a₁ * 16 + a₂) * 16 + a₃) * 16 + a₄, rest)
      | _, _, _, _ => none
    else none
  | _ => none

/-- What stands for text that is no Unicode. -/
def replacementChar : Char := Char.ofNat 0xFFFD

/-- The character of a code unit, or of a surrogate pair. -/
def unquoteUnit (unit : ℕ) (rest : List UInt8) : Char × List UInt8 :=
  if 0xD800 ≤ unit ∧ unit < 0xE000 then
    match getu4 rest with
    | some (unit', rest') =>
      if unit < 0xDC00 ∧ 0xDC00 ≤ unit' ∧ unit' < 0xE000 then
        (Char.ofNat ((unit - 0xD800) * 0x400 + (unit' - 0xDC00) + 0x10000), rest')
      else (replacementChar, rest)
    | none => (replacementChar, rest)
  else (Char.ofNat unit, rest)

/-- The character behind a backslash. -/
def unescape : Char → Char
  | 'b' => Char.ofNat 8
  | 'f' => Char.ofNat 12
  | 'n' => '\n'
  | 'r' => '\r'
  | 't' => '\t'
  | c => c

/-- The first character of the bytes of a string, and what follows it. -/
def unquoteChar (b : UInt8) (rest : List UInt8) : Char × List UInt8 :=
  if glyph b = '\\' then
    match getu4 (b :: rest), rest with
    | some (unit, rest'), _ => unquoteUnit unit rest'
    | none, e :: rest' => (unescape (glyph e), rest')
    | none, [] => (glyph b, [])
  else if b.toNat < 128 then (glyph b, rest)
  else
    match (b :: rest).toByteArray.utf8DecodeChar? 0 with
    | some c => (c, (b :: rest).drop c.utf8Size)
    | none => (replacementChar, rest)

/-- The characters of the bytes of a string, `n` at most. -/
def unquoteChars : ℕ → List UInt8 → List Char
  | 0, _ => []
  | _, [] => []
  | n + 1, b :: rest => (unquoteChar b rest).1 :: unquoteChars n (unquoteChar b rest).2

/-- `unquote`: every character takes at least one byte. -/
def unquote (raw : List UInt8) : String := String.ofList (unquoteChars raw.length raw)

/-- The value of decimal digits. -/
def decimal (ds : List UInt8) : ℕ := ds.foldl (fun n d => 10 * n + (d.toNat - 48)) 0

/-- The value of decimal digits with a sign in front or none. -/
def signed : List UInt8 → ℤ
  | [] => 0
  | b :: ds =>
    if glyph b = '-' then -(decimal ds : ℤ)
    else if glyph b = '+' then decimal ds
    else decimal (b :: ds)

/-- Whether a byte starts the exponent of a number. -/
def isExponent (b : UInt8) : Bool := glyph b = 'e' || glyph b = 'E'

/-- The number its bytes stand for.  An exponent of zero is kept for what was written as an
integer. -/
def convertNumber (raw : List UInt8) : Json :=
  let mantissa := raw.takeWhile fun b => !isExponent b
  let int := mantissa.takeWhile fun b => glyph b ≠ '.'
  let frac := (mantissa.dropWhile fun b => glyph b ≠ '.').drop 1
  let m := signed (int ++ frac)
  let e := signed ((raw.dropWhile fun b => !isExponent b).drop 1) - frac.length
  if int.length = raw.length then .num m 0
  else if e = 0 then .num (10 * m) (-1)
  else .num m e

/-! ## The scanner -/

/-- An array or object that is open: what has been read of it. -/
inductive Frame
  | array (items : List Json)
  /-- The next string is a key. -/
  | objectKey (fields : List (String × Json))
  | objectValue (fields : List (String × Json)) (key : String)

/-- Where in a number the scanner is. -/
inductive NumberState
  | neg
  /-- `state1`: in the digits before the point. -/
  | digits
  /-- `state0`: after a leading zero. -/
  | zero
  | dot
  | dot0
  | exp
  | expSign
  | exp0
  deriving DecidableEq

/-- What a byte does to a number. -/
inductive NumberStep
  | more (state : NumberState)
  /-- The number ended before the byte. -/
  | done
  | bad (context : String)
  deriving DecidableEq

/-- `stateNeg`, `state1`, `state0`, `stateDot`, `stateDot0`, `stateE`, `stateESign` and
`stateE0`. -/
def NumberState.next (b : UInt8) : NumberState → NumberStep
  | .neg =>
    if glyph b = '0' then .more .zero
    else if isDigit b then .more .digits
    else .bad "in numeric literal"
  | .digits =>
    if isDigit b then .more .digits
    else if glyph b = '.' then .more .dot
    else if isExponent b then .more .exp
    else .done
  | .zero =>
    if glyph b = '.' then .more .dot
    else if isExponent b then .more .exp
    else .done
  | .dot =>
    if isDigit b then .more .dot0
    else .bad "after decimal point in numeric literal"
  | .dot0 =>
    if isDigit b then .more .dot0
    else if isExponent b then .more .exp
    else .done
  | .exp =>
    if glyph b = '+' ∨ glyph b = '-' then .more .expSign
    else if isDigit b then .more .exp0
    else .bad "in exponent of numeric literal"
  | .expSign =>
    if isDigit b then .more .exp0
    else .bad "in exponent of numeric literal"
  | .exp0 =>
    if isDigit b then .more .exp0
    else .done

/-- What the scanner is at. -/
inductive Mode
  | beginValue
  | beginValueOrEmpty
  | beginString
  | beginStringOrEmpty
  | inString (raw : List UInt8)
  | inStringEsc (raw : List UInt8)
  /-- The number of hexadecimal digits still to come. -/
  | inStringEscU (raw : List UInt8) (left : ℕ)
  | number (state : NumberState) (raw : List UInt8)
  /-- Within one of the three words. -/
  | literal (word : String) (left : List Char) (value : Json)
  | endKey (key : String)
  | endValue (value : Json)

/-- The scanner, with the innermost open array or object on top of its stack. -/
structure Scanner where
  stack : List Frame
  mode : Mode

/-- The scanner meets a byte it did not expect. -/
def unexpected (b : UInt8) (context : String) : Except SyntaxError Scanner :=
  .error (.invalidCharacter b context)

/-- `stateBeginValue`. -/
def stepBeginValue (stack : List Frame) (b : UInt8) : Except SyntaxError Scanner :=
  match glyph b with
  | '\x7b' => .ok ⟨.objectKey [] :: stack, .beginStringOrEmpty⟩
  | '[' => .ok ⟨.array [] :: stack, .beginValueOrEmpty⟩
  | '\"' => .ok ⟨stack, .inString []⟩
  | '-' => .ok ⟨stack, .number .neg [b]⟩
  | '0' => .ok ⟨stack, .number .zero [b]⟩
  | 't' => .ok ⟨stack, .literal "true" ['r', 'u', 'e'] (.bool true)⟩
  | 'f' => .ok ⟨stack, .literal "false" ['a', 'l', 's', 'e'] (.bool false)⟩
  | 'n' => .ok ⟨stack, .literal "null" ['u', 'l', 'l'] .null⟩
  | _ =>
    if isSpace b then .ok ⟨stack, .beginValue⟩
    else if isDigit b then .ok ⟨stack, .number .digits [b]⟩
    else unexpected b "looking for beginning of value"

/-- `stateEndValue`, after a value. -/
def stepEndValue (stack : List Frame) (value : Json) (b : UInt8) : Except SyntaxError Scanner :=
  if isSpace b then .ok ⟨stack, .endValue value⟩
  else
    match stack with
    | [] => unexpected b "after top-level value"
    | .array items :: stack =>
      if glyph b = ',' then .ok ⟨.array (items ++ [value]) :: stack, .beginValue⟩
      else if glyph b = ']' then .ok ⟨stack, .endValue (.arr (items ++ [value]))⟩
      else unexpected b "after array element"
    | .objectValue fields key :: stack =>
      if glyph b = ',' then .ok ⟨.objectKey (fields ++ [(key, value)]) :: stack, .beginString⟩
      else if glyph b = '\x7d' then .ok ⟨stack, .endValue (.obj (fields ++ [(key, value)]))⟩
      else unexpected b "after object key:value pair"
    | .objectKey _ :: _ => unexpected b "after object key"

/-- `stateEndValue`, after a key. -/
def stepEndKey (stack : List Frame) (key : String) (b : UInt8) : Except SyntaxError Scanner :=
  if isSpace b then .ok ⟨stack, .endKey key⟩
  else
    match stack with
    | .objectKey fields :: stack =>
      if glyph b = ':' then .ok ⟨.objectValue fields key :: stack, .beginValue⟩
      else unexpected b "after object key"
    | _ => unexpected b "after object key"

/-- `stateBeginString`. -/
def stepBeginString (stack : List Frame) (b : UInt8) : Except SyntaxError Scanner :=
  if isSpace b then .ok ⟨stack, .beginString⟩
  else if glyph b = '\"' then .ok ⟨stack, .inString []⟩
  else unexpected b "looking for beginning of object key string"

/-- The end of a string, which is a key where one is expected. -/
def endString (stack : List Frame) (raw : List UInt8) : Scanner :=
  match stack with
  | .objectKey _ :: _ => ⟨stack, .endKey (unquote raw)⟩
  | _ => ⟨stack, .endValue (.str (unquote raw))⟩

/-- `stateInString`. -/
def stepInString (stack : List Frame) (raw : List UInt8) (b : UInt8) :
    Except SyntaxError Scanner :=
  if glyph b = '\"' then .ok (endString stack raw)
  else if glyph b = '\\' then .ok ⟨stack, .inStringEsc (raw ++ [b])⟩
  else if b.toNat < 32 then unexpected b "in string literal"
  else .ok ⟨stack, .inString (raw ++ [b])⟩

/-- One byte of a text. -/
def Scanner.step (s : Scanner) (b : UInt8) : Except SyntaxError Scanner :=
  let stack := s.stack
  match s.mode with
  | .beginValue => stepBeginValue stack b
  | .beginValueOrEmpty =>
    if isSpace b then .ok s
    else
      match glyph b, stack with
      | ']', .array items :: stack => .ok ⟨stack, .endValue (.arr items)⟩
      | _, _ => stepBeginValue stack b
  | .beginString => stepBeginString stack b
  | .beginStringOrEmpty =>
    if isSpace b then .ok s
    else
      match glyph b, stack with
      | '\x7d', .objectKey fields :: stack => .ok ⟨stack, .endValue (.obj fields)⟩
      | _, _ => stepBeginString stack b
  | .inString raw => stepInString stack raw b
  | .inStringEsc raw =>
    if glyph b = 'u' then .ok ⟨stack, .inStringEscU (raw ++ [b]) 4⟩
    else if glyph b ∈ ['b', 'f', 'n', 'r', 't', '\\', '/', '\"'] then
      .ok ⟨stack, .inString (raw ++ [b])⟩
    else unexpected b "in string escape code"
  | .inStringEscU raw left =>
    if (hexDigit b).isNone then unexpected b "in \\u hexadecimal character escape"
    else if left ≤ 1 then .ok ⟨stack, .inString (raw ++ [b])⟩
    else .ok ⟨stack, .inStringEscU (raw ++ [b]) (left - 1)⟩
  | .number state raw =>
    match state.next b with
    | .more state' => .ok ⟨stack, .number state' (raw ++ [b])⟩
    | .done => stepEndValue stack (convertNumber raw) b
    | .bad context => unexpected b context
  | .literal word left value =>
    match left with
    | [] => stepEndValue stack value b
    | c :: left =>
      if glyph b ≠ c then
        unexpected b ("in literal " ++ word ++ " (expecting " ++ quoteByte (ascii c) ++ ")")
      else if left = [] then .ok ⟨stack, .endValue value⟩
      else .ok ⟨stack, .literal word left value⟩
  | .endKey key => stepEndKey stack key b
  | .endValue value => stepEndValue stack value b

/-- Some bytes of a text. -/
def scan (s : Scanner) (bytes : List UInt8) : Except SyntaxError Scanner := bytes.foldlM Scanner.step s

/-- `eof`: a number at the end of the text ends as before a space. -/
def Scanner.eof (s : Scanner) : Except SyntaxError Json :=
  match s.step (ascii ' ') with
  | .error e => .error e
  | .ok ⟨[], .endValue value⟩ => .ok value
  | .ok _ => .error .unexpectedEnd

/-- The document a text stands for. -/
def parse (bytes : List UInt8) : Except SyntaxError Json :=
  match scan ⟨[], .beginValue⟩ bytes with
  | .error e => .error e
  | .ok s => s.eof

/-! ## A document is lighter than its text -/

/-- A value, and the values of an object, are shorter than `n`. -/
structure Light (n : ℕ) (j : Json) : Prop where
  breadth : j.breadth < n
  fields : ∀ fields, j = .obj fields → ∀ f ∈ fields, f.2.breadth < n

theorem Light.mono {m n : ℕ} {j : Json} (h : Light m j) (hmn : m ≤ n) : Light n j :=
  ⟨h.breadth.trans_le hmn, fun fields hj f hf => (h.fields fields hj f hf).trans_le hmn⟩

/-- A value that has no parts. -/
theorem light_of_breadth {n : ℕ} {j : Json} (h : j.breadth < n) (hj : ∀ fields, j ≠ .obj fields) :
    Light n j :=
  ⟨h, fun fields heq => absurd heq (hj fields)⟩

theorem light_obj {n : ℕ} {fields : List (String × Json)} (hn : 0 < n)
    (h : ∀ f ∈ fields, f.2.breadth < n) : Light n (.obj fields) := by
  refine ⟨hn, fun fields' heq => ?_⟩
  cases heq
  exact h

theorem light_convertNumber {n : ℕ} (hn : 0 < n) (raw : List UInt8) :
    Light n (convertNumber raw) := by
  unfold convertNumber
  dsimp only
  split_ifs
  all_goals exact light_of_breadth hn fun _ => Json.noConfusion

theorem length_unquoteChars (n : ℕ) (raw : List UInt8) : (unquoteChars n raw).length ≤ n := by
  induction n generalizing raw with
  | zero => exact le_rfl
  | succ n ih =>
    cases raw with
    | nil => exact Nat.zero_le _
    | cons b rest => exact Nat.succ_le_succ (ih _)

/-- A string has at most one character for each of its bytes. -/
theorem length_unquote (raw : List UInt8) : (unquote raw).length ≤ raw.length := by
  unfold unquote
  rw [String.length_ofList]
  exact length_unquoteChars raw.length raw

/-- What has been read of an array or object after `n` bytes. -/
def Frame.Fits (n : ℕ) : Frame → Prop
  | .array items => items.length < n
  | .objectKey fields => ∀ f ∈ fields, f.2.breadth < n
  | .objectValue fields _ => ∀ f ∈ fields, f.2.breadth < n

def Mode.Fits (n : ℕ) : Mode → Prop
  | .inString raw => raw.length < n
  | .inStringEsc raw => raw.length < n
  | .inStringEscU raw _ => raw.length < n
  | .literal _ _ value => Light n value
  | .endValue value => Light n value
  | .beginValue => True
  | _ => 0 < n

/-- The invariant of the scanner after `n` bytes. -/
structure Scanner.Fits (n : ℕ) (s : Scanner) : Prop where
  stack : ∀ f ∈ s.stack, f.Fits n
  mode : s.mode.Fits n

theorem Frame.Fits.succ {n : ℕ} {f : Frame} (h : f.Fits n) : f.Fits (n + 1) := by
  cases f with
  | array items => exact Nat.lt_succ_of_lt h
  | objectKey fields => exact fun g hg => Nat.lt_succ_of_lt (h g hg)
  | objectValue fields key => exact fun g hg => Nat.lt_succ_of_lt (h g hg)

section Fits

variable {n : ℕ} {stack : List Frame} {b : UInt8} {s : Scanner}

/-- The stack stays, and the mode is one that fits. -/
theorem fits_mode {mode : Mode} (hstack : ∀ f ∈ stack, f.Fits n) (hmode : mode.Fits (n + 1)) :
    Scanner.Fits (n + 1) ⟨stack, mode⟩ :=
  ⟨fun f hf => (hstack f hf).succ, hmode⟩

/-- A frame that fits is put on the stack. -/
theorem fits_push {frame : Frame} {mode : Mode} (hstack : ∀ f ∈ stack, f.Fits n)
    (hframe : frame.Fits (n + 1)) (hmode : mode.Fits (n + 1)) :
    Scanner.Fits (n + 1) ⟨frame :: stack, mode⟩ := by
  refine ⟨fun f hf => ?_, hmode⟩
  rcases List.mem_cons.mp hf with rfl | hf
  · exact hframe
  · exact (hstack f hf).succ

theorem stepBeginValue_fits (hstack : ∀ f ∈ stack, f.Fits n)
    (hstep : stepBeginValue stack b = .ok s) : s.Fits (n + 1) := by
  have hword : ∀ value : Json, value.breadth = 0 → (∀ fields, value ≠ .obj fields) →
      Light (n + 1) value := fun value h hobj => light_of_breadth (h ▸ Nat.succ_pos n) hobj
  unfold stepBeginValue at hstep
  split at hstep
  next =>
    cases hstep
    exact fits_push hstack (fun _ hf => absurd hf List.not_mem_nil) (Nat.succ_pos n)
  next =>
    cases hstep
    exact fits_push hstack (Nat.succ_pos n) (Nat.succ_pos n)
  next =>
    cases hstep
    exact fits_mode hstack (Nat.succ_pos n)
  next =>
    cases hstep
    exact fits_mode hstack (Nat.succ_pos n)
  next =>
    cases hstep
    exact fits_mode hstack (Nat.succ_pos n)
  next =>
    cases hstep
    exact fits_mode hstack (hword _ rfl fun _ => Json.noConfusion)
  next =>
    cases hstep
    exact fits_mode hstack (hword _ rfl fun _ => Json.noConfusion)
  next =>
    cases hstep
    exact fits_mode hstack (hword _ rfl fun _ => Json.noConfusion)
  next =>
    split_ifs at hstep
    · cases hstep
      exact fits_mode hstack trivial
    · cases hstep
      exact fits_mode hstack (Nat.succ_pos n)
    · exact absurd hstep (by simp [unexpected])

/-- One more field of an object. -/
theorem fields_concat {fields : List (String × Json)} (key : String) {value : Json}
    (h : ∀ f ∈ fields, f.2.breadth < n) (hvalue : value.breadth < n) :
    ∀ f ∈ fields ++ [(key, value)], f.2.breadth < n + 1 := by
  intro f hf
  rcases List.mem_append.mp hf with hf | hf
  · exact Nat.lt_succ_of_lt (h f hf)
  · obtain rfl := List.mem_singleton.mp hf
    exact Nat.lt_succ_of_lt hvalue

theorem stepEndValue_fits {value : Json} (hstack : ∀ f ∈ stack, f.Fits n) (hvalue : Light n value)
    (hstep : stepEndValue stack value b = .ok s) : s.Fits (n + 1) := by
  unfold stepEndValue at hstep
  split at hstep
  · cases hstep
    exact fits_mode hstack (hvalue.mono (Nat.le_succ n))
  cases stack with
  | nil => exact absurd hstep (by simp [unexpected])
  | cons frame stack =>
    have hframe : frame.Fits n := hstack frame List.mem_cons_self
    have hrest : ∀ f ∈ stack, f.Fits n := fun f hf => hstack f (List.mem_cons_of_mem _ hf)
    cases frame with
    | array items =>
      have hitems : (items ++ [value]).length < n + 1 := by
        rw [List.length_append, List.length_singleton]
        exact Nat.succ_lt_succ hframe
      dsimp only at hstep
      split_ifs at hstep
      · cases hstep
        exact fits_push hrest hitems trivial
      · cases hstep
        exact fits_mode hrest (light_of_breadth hitems fun _ => Json.noConfusion)
      · exact absurd hstep (by simp [unexpected])
    | objectValue fields key =>
      have hfields := fields_concat key hframe hvalue.breadth
      dsimp only at hstep
      split_ifs at hstep
      · cases hstep
        exact fits_push hrest hfields (Nat.succ_pos n)
      · cases hstep
        exact fits_mode hrest (light_obj (Nat.succ_pos n) hfields)
      · exact absurd hstep (by simp [unexpected])
    | objectKey fields => exact absurd hstep (by simp [unexpected])

theorem stepEndKey_fits {key : String} (hstack : ∀ f ∈ stack, f.Fits n)
    (hstep : stepEndKey stack key b = .ok s) : s.Fits (n + 1) := by
  unfold stepEndKey at hstep
  split at hstep
  · cases hstep
    exact fits_mode hstack (Nat.succ_pos n)
  split at hstep
  next fields rest =>
    split_ifs at hstep
    · cases hstep
      have hframe : ∀ f ∈ fields, f.2.breadth < n := hstack _ List.mem_cons_self
      exact fits_push (fun f hf => hstack f (List.mem_cons_of_mem _ hf))
        (fun f hf => Nat.lt_succ_of_lt (hframe f hf)) trivial
    · exact absurd hstep (by simp [unexpected])
  next => exact absurd hstep (by simp [unexpected])

theorem stepBeginString_fits (hstack : ∀ f ∈ stack, f.Fits n)
    (hstep : stepBeginString stack b = .ok s) : s.Fits (n + 1) := by
  unfold stepBeginString at hstep
  split_ifs at hstep
  · cases hstep
    exact fits_mode hstack (Nat.succ_pos n)
  · cases hstep
    exact fits_mode hstack (Nat.succ_pos n)
  · exact absurd hstep (by simp [unexpected])

theorem endString_fits {raw : List UInt8} (hstack : ∀ f ∈ stack, f.Fits n) (hraw : raw.length < n) :
    (endString stack raw).Fits (n + 1) := by
  unfold endString
  split
  · exact fits_mode hstack (Nat.succ_pos n)
  · have hlength : (unquote raw).length < n + 1 :=
      (length_unquote raw).trans_lt (Nat.lt_succ_of_lt hraw)
    exact fits_mode hstack (light_of_breadth hlength fun _ => Json.noConfusion)

/-- One more byte of a string. -/
theorem length_concat {raw : List UInt8} (h : raw.length < n) : (raw ++ [b]).length < n + 1 := by
  rw [List.length_append, List.length_singleton]
  exact Nat.succ_lt_succ h

theorem stepInString_fits {raw : List UInt8} (hstack : ∀ f ∈ stack, f.Fits n)
    (hraw : raw.length < n) (hstep : stepInString stack raw b = .ok s) : s.Fits (n + 1) := by
  unfold stepInString at hstep
  split_ifs at hstep
  · cases hstep
    exact endString_fits hstack hraw
  · cases hstep
    exact fits_mode hstack (length_concat hraw)
  · exact absurd hstep (by simp [unexpected])
  · cases hstep
    exact fits_mode hstack (length_concat hraw)

/-- **One byte keeps what has been read lighter than the bytes it was read from.** -/
theorem step_fits (hs : s.Fits n) {s' : Scanner} (hstep : s.step b = .ok s') :
    s'.Fits (n + 1) := by
  obtain ⟨stack, mode⟩ := s
  obtain ⟨hstack, hmode⟩ := hs
  dsimp only at hstack hmode
  cases mode with
  | beginValue => exact stepBeginValue_fits hstack hstep
  | beginValueOrEmpty =>
    simp only [Scanner.step] at hstep
    split_ifs at hstep
    · cases hstep
      exact fits_mode hstack (Nat.succ_pos n)
    split at hstep
    next items rest _ =>
      cases hstep
      have hframe : items.length < n := hstack _ List.mem_cons_self
      exact fits_mode (fun f hf => hstack f (List.mem_cons_of_mem _ hf))
        (light_of_breadth (Nat.lt_succ_of_lt hframe) fun _ => Json.noConfusion)
    next => exact stepBeginValue_fits hstack hstep
  | beginString => exact stepBeginString_fits hstack hstep
  | beginStringOrEmpty =>
    simp only [Scanner.step] at hstep
    split at hstep
    · cases hstep
      exact fits_mode hstack (Nat.succ_pos n)
    split at hstep
    next fields rest _ =>
      cases hstep
      have hframe : ∀ f ∈ fields, f.2.breadth < n := hstack _ List.mem_cons_self
      exact fits_mode (fun f hf => hstack f (List.mem_cons_of_mem _ hf))
        (light_obj (Nat.succ_pos n) fun f hf => Nat.lt_succ_of_lt (hframe f hf))
    next => exact stepBeginString_fits hstack hstep
  | inString raw => exact stepInString_fits hstack hmode hstep
  | inStringEsc raw =>
    simp only [Scanner.step] at hstep
    split_ifs at hstep
    · cases hstep
      exact fits_mode hstack (length_concat hmode)
    · cases hstep
      exact fits_mode hstack (length_concat hmode)
    · exact absurd hstep (by simp [unexpected])
  | inStringEscU raw left =>
    simp only [Scanner.step] at hstep
    split_ifs at hstep
    · exact absurd hstep (by simp [unexpected])
    · cases hstep
      exact fits_mode hstack (length_concat hmode)
    · cases hstep
      exact fits_mode hstack (length_concat hmode)
  | number state raw =>
    simp only [Scanner.step] at hstep
    split at hstep
    · cases hstep
      exact fits_mode hstack (Nat.succ_pos n)
    · exact stepEndValue_fits hstack (light_convertNumber hmode raw) hstep
    · exact absurd hstep (by simp [unexpected])
  | literal word left value =>
    simp only [Scanner.step] at hstep
    split at hstep
    · exact stepEndValue_fits hstack hmode hstep
    split_ifs at hstep
    · exact absurd hstep (by simp [unexpected])
    · cases hstep
      exact fits_mode hstack (Light.mono hmode (Nat.le_succ n))
    · cases hstep
      exact fits_mode hstack (Light.mono hmode (Nat.le_succ n))
  | endKey key => exact stepEndKey_fits hstack hstep
  | endValue value => exact stepEndValue_fits hstack hmode hstep

end Fits

/-- A whole run of the scanner. -/
theorem scan_fits {n : ℕ} {s s' : Scanner} {bytes : List UInt8} (hs : s.Fits n)
    (h : scan s bytes = .ok s') : s'.Fits (n + bytes.length) := by
  induction bytes generalizing n s with
  | nil =>
    cases h
    exact hs
  | cons b bytes ih =>
    unfold scan at h
    rw [List.foldlM_cons] at h
    cases hstep : s.step b with
    | error e =>
      rw [hstep] at h
      exact absurd h (by simp [bind, Except.bind])
    | ok t =>
      rw [hstep] at h
      have hfits := ih (step_fits hs hstep) h
      rw [List.length_cons]
      rwa [Nat.add_assoc, Nat.add_comm 1] at hfits

/-- A value that ends before a space. -/
theorem stepEndValue_space {stack : List Frame} {value v : Json}
    (h : stepEndValue stack value (ascii ' ') = .ok ⟨[], .endValue v⟩) : v = value := by
  unfold stepEndValue at h
  rw [if_pos (by decide)] at h
  cases h
  rfl

/-- The space at the end of a text adds nothing to a value. -/
theorem light_of_space {n : ℕ} {s : Scanner} {v : Json} (hs : s.Fits n)
    (h : s.step (ascii ' ') = .ok ⟨[], .endValue v⟩) : Light n v := by
  obtain ⟨stack, mode⟩ := s
  have hmode : mode.Fits n := hs.mode
  have hspace : isSpace (ascii ' ') = true := by decide
  cases mode with
  | beginValue => exact absurd h (by simp [Scanner.step, stepBeginValue, glyph, ascii, isSpace])
  | beginValueOrEmpty => exact absurd h (by simp [Scanner.step, hspace])
  | beginString => exact absurd h (by simp [Scanner.step, stepBeginString, hspace])
  | beginStringOrEmpty => exact absurd h (by simp [Scanner.step, hspace])
  | inString raw => exact absurd h (by simp [Scanner.step, stepInString, glyph, ascii])
  | inStringEsc raw => exact absurd h (by simp [Scanner.step, unexpected, glyph, ascii])
  | inStringEscU raw left => exact absurd h (by simp [Scanner.step, unexpected, hexDigit, ascii])
  | number state raw =>
    simp only [Scanner.step] at h
    split at h
    · exact absurd h (by simp)
    · rw [stepEndValue_space h]
      exact light_convertNumber hmode raw
    · exact absurd h (by simp [unexpected])
  | literal word left value =>
    simp only [Scanner.step] at h
    split at h
    · rw [stepEndValue_space h]
      exact hmode
    split_ifs at h
    · exact absurd h (by simp [unexpected])
    · cases h
      exact hmode
    · exact absurd h (by simp)
  | endKey key => exact absurd h (by simp [Scanner.step, stepEndKey, hspace])
  | endValue value =>
    rw [stepEndValue_space h]
    exact hmode

/-- **A document is lighter than its text**: a string, an array and the values of an object
are shorter than the text they were read from. -/
theorem parse_light {bytes : List UInt8} {j : Json} (h : parse bytes = .ok j) :
    Light bytes.length j := by
  unfold parse at h
  split at h
  · exact absurd h (by simp)
  next s hscan =>
    have hinit : Scanner.Fits 0 ⟨[], .beginValue⟩ :=
      ⟨fun f hf => absurd hf List.not_mem_nil, trivial⟩
    have hs : s.Fits (0 + bytes.length) := scan_fits hinit hscan
    rw [Nat.zero_add] at hs
    unfold Scanner.eof at h
    split at h
    · exact absurd h (by simp)
    next value hstep =>
      obtain rfl := Except.ok.inj h
      exact light_of_space hs hstep
    · exact absurd h (by simp)

end GoJson
