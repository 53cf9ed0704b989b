/-
# Writing the text of a JSON document

`render` writes a document as `json.Marshal` does, without spaces and with its escapes.  Only
a number that is not an integer is written in another way, always with an exponent: `25e-1` where
Go writes `2.5`.

`parse_render` says that the scanner reads the document back from its text.  A value is
followed by one of a few bytes, at which the scanner goes on as after that value (`Ends`):
for a number this is where its text turns out to have ended.

A `json.Decoder` reads one document and leaves what follows it (`parseFirst`); after the text of an
object it reads that object, whatever follows (`parseFirst_render`).
-/
import Border.JsonText

namespace GoJson

/-! ## Writing a document -/

/-- The decimal digits of a number. -/
def natDigits (n : ℕ) : List UInt8 :=
  if n = 0 then [ascii '0'] else (Nat.digits 10 n).reverse.map fun d => UInt8.ofNat (48 + d)

def renderInt (z : ℤ) : List UInt8 :=
  if z < 0 then ascii '-' :: natDigits z.natAbs else natDigits z.natAbs

/-- The text of a number; an integer is written as Go writes it. -/
def renderNumber (m e : ℤ) : List UInt8 :=
  if e = 0 then renderInt m else renderInt m ++ ascii 'e' :: renderInt e

/-- An escape of four hexadecimal digits. -/
def unicodeEscape (n : ℕ) : List UInt8 :=
  [ascii '\\', ascii 'u', hexChar (n / 4096), hexChar (n / 256 % 16), hexChar (n / 16 % 16),
    hexChar (n % 16)]

/-- The bytes of a character in a string; what has a meaning in HTML is escaped as well. -/
def escapeChar (c : Char) : List UInt8 :=
  if c = '\"' ∨ c = '\\' then [ascii '\\', ascii c]
  else if c = '\n' then [ascii '\\', ascii 'n']
  else if c = '\r' then [ascii '\\', ascii 'r']
  else if c = '\t' then [ascii '\\', ascii 't']
  else if c.toNat < 32 ∨ c.toNat ∈ [0x26, 0x3C, 0x3E, 0x2028, 0x2029] then unicodeEscape c.toNat
  else String.utf8EncodeChar c

def renderString (s : String) : List UInt8 :=
  ascii '\"' :: s.toList.flatMap escapeChar ++ [ascii '\"']

mutual

/-- A text of a document. -/
def render : Json → List UInt8
  | .null => ['n', 'u', 'l', 'l'].map ascii
  | .bool true => ['t', 'r', 'u', 'e'].map ascii
  | .bool false => ['f', 'a', 'l', 's', 'e'].map ascii
  | .num m e => renderNumber m e
  | .str s => renderString s
  | .arr [] => ['[', ']'].map ascii
  | .arr (j :: js) => ascii '[' :: render j ++ renderItems js
  | .obj [] => ['\x7b', '\x7d'].map ascii
  | .obj ((key, j) :: fields) =>
    ascii '\x7b' :: renderString key ++ ascii ':' :: render j ++ renderFields fields

/-- The further items of an array, and its end. -/
def renderItems : List Json → List UInt8
  | [] => [ascii ']']
  | j :: js => ascii ',' :: render j ++ renderItems js

/-- The further fields of an object, and its end. -/
def renderFields : List (String × Json) → List UInt8
  | [] => [ascii '\x7d']
  | (key, j) :: fields =>
    ascii ',' :: renderString key ++ ascii ':' :: render j ++ renderFields fields

end

/-! ## Reading back what was written -/

/-- What stands after a text is read from where the text has led. -/
theorem scan_append {s t : Scanner} {bytes : List UInt8} (h : scan s bytes = .ok t)
    (rest : List UInt8) : scan s (bytes ++ rest) = scan t rest := by
  unfold scan at h ⊢
  rw [List.foldlM_append, h]
  rfl

theorem scan_cons {s t : Scanner} {b : UInt8} (h : s.step b = .ok t) (rest : List UInt8) :
    scan s (b :: rest) = scan t rest := by
  unfold scan
  rw [List.foldlM_cons, h]
  rfl

theorem scan_nil (s : Scanner) : scan s [] = .ok s := rfl

/-! ### Characters -/

/-- A hexadecimal digit is read back. -/
theorem hexDigit_hexChar {n : ℕ} (hn : n < 16) : hexDigit (hexChar n) = some n := by
  interval_cases n <;> rfl

/-- The bytes that stand for themselves in a string. -/
def Plain (b : UInt8) : Prop := glyph b ≠ '\"' ∧ glyph b ≠ '\\' ∧ 32 ≤ b.toNat

/-- Plain bytes are taken as they are. -/
theorem scan_plain {stack : List Frame} {raw bytes : List UInt8} (h : ∀ b ∈ bytes, Plain b) :
    scan ⟨stack, .inString raw⟩ bytes = .ok ⟨stack, .inString (raw ++ bytes)⟩ := by
  induction bytes generalizing raw with
  | nil => rw [List.append_nil, scan_nil]
  | cons b bytes ih =>
    obtain ⟨hquote, hslash, hcontrol⟩ := h b List.mem_cons_self
    have hstep : Scanner.step ⟨stack, .inString raw⟩ b = .ok ⟨stack, .inString (raw ++ [b])⟩ := by
      show stepInString stack raw b = _
      unfold stepInString
      rw [if_neg hquote, if_neg hslash, if_neg (Nat.not_lt.mpr hcontrol)]
    rw [scan_cons hstep, ih fun b' hb' => h b' (List.mem_cons_of_mem _ hb'), List.append_assoc]
    rfl

theorem toNat_glyph (b : UInt8) : (glyph b).toNat = b.toNat := by
  have hb : b.toNat < 256 := b.toNat_lt
  have hvalid : b.toNat.isValidChar := Or.inl (by omega)
  unfold glyph
  rw [Char.toNat_ofNat, if_pos hvalid]

theorem toNat_ascii {c : Char} (hc : c.toNat < 128) : (ascii c).toNat = c.toNat := by
  unfold ascii
  rw [UInt8.toNat_ofNat']
  omega

/-- An ASCII character is its byte. -/
theorem glyph_ascii {c : Char} (hc : c.toNat < 128) : glyph (ascii c) = c := by
  unfold glyph
  rw [toNat_ascii hc, Char.ofNat_toNat]

theorem glyph_ne_of_large {b : UInt8} (h : 128 ≤ b.toNat) {c : Char} (hc : c.toNat < 128) :
    glyph b ≠ c := by
  rintro rfl
  rw [toNat_glyph] at hc
  omega

theorem utf8EncodeChar_ascii {c : Char} (hc : c.toNat < 128) :
    String.utf8EncodeChar c = [ascii c] := by
  have hv : c.val.toNat ≤ 127 := Nat.le_of_lt_succ hc
  simp only [String.utf8EncodeChar, if_pos hv]
  rfl

theorem utf8EncodeChar_ne_nil (c : Char) : String.utf8EncodeChar c ≠ [] := by
  intro h
  have hlength := String.length_utf8EncodeChar c
  rw [h] at hlength
  exact absurd hlength.symm (Char.utf8Size_pos c).ne'

/-- No byte of a character beyond ASCII is an ASCII one. -/
theorem large_utf8EncodeChar {c : Char} (h : 128 ≤ c.toNat) :
    ∀ b ∈ String.utf8EncodeChar c, 128 ≤ b.toNat := by
  have hbyte : ∀ k, 128 ≤ k → k < 256 → 128 ≤ (UInt8.ofNat k).toNat := by
    intro k hlo hhi
    rw [UInt8.toNat_ofNat']
    omega
  have hv : ¬ c.val.toNat ≤ 127 := Nat.not_le.mpr h
  intro b hb
  simp only [String.utf8EncodeChar, if_neg hv] at hb
  split_ifs at hb
  · simp only [List.mem_cons, List.not_mem_nil, or_false] at hb
    rcases hb with rfl | rfl <;> exact hbyte _ (by omega) (by omega)
  · simp only [List.mem_cons, List.not_mem_nil, or_false] at hb
    rcases hb with rfl | rfl | rfl <;> exact hbyte _ (by omega) (by omega)
  · simp only [List.mem_cons, List.not_mem_nil, or_false] at hb
    rcases hb with rfl | rfl | rfl | rfl <;> exact hbyte _ (by omega) (by omega)

/-- The characters that need no escape have plain bytes. -/
theorem plain_utf8EncodeChar {c : Char} (hquote : c ≠ '\"') (hslash : c ≠ '\\')
    (hcontrol : 32 ≤ c.toNat) : ∀ b ∈ String.utf8EncodeChar c, Plain b := by
  intro b hb
  by_cases hc : c.toNat < 128
  · rw [utf8EncodeChar_ascii hc] at hb
    obtain rfl := List.mem_singleton.mp hb
    unfold Plain
    rw [glyph_ascii hc, toNat_ascii hc]
    exact ⟨hquote, hslash, hcontrol⟩
  · have hlarge := large_utf8EncodeChar (Nat.not_lt.mp hc) b hb
    exact ⟨glyph_ne_of_large hlarge (by decide), glyph_ne_of_large hlarge (by decide), by omega⟩

/-- An escape of two characters stays in the string. -/
theorem scan_escape (stack : List Frame) (raw : List UInt8) {e : UInt8}
    (he : glyph e ∈ ['b', 'f', 'n', 'r', 't', '\\', '/', '\"']) :
    scan ⟨stack, .inString raw⟩ [ascii '\\', e]
      = .ok ⟨stack, .inString (raw ++ [ascii '\\', e])⟩ := by
  have hu : glyph e ≠ 'u' := by
    intro h
    rw [h] at he
    exact absurd he (by decide)
  have hslash : Scanner.step ⟨stack, .inString raw⟩ (ascii '\\')
      = .ok ⟨stack, .inStringEsc (raw ++ [ascii '\\'])⟩ := rfl
  have hescape : Scanner.step ⟨stack, .inStringEsc (raw ++ [ascii '\\'])⟩ e
      = .ok ⟨stack, .inString (raw ++ [ascii '\\'] ++ [e])⟩ := by
    simp only [Scanner.step]
    rw [if_neg hu, if_pos he]
  rw [scan_cons hslash, scan_cons hescape, scan_nil, List.append_assoc]
  rfl

theorem step_hex (stack : List Frame) (raw : List UInt8) (left : ℕ) {n : ℕ} (hn : n < 16) :
    Scanner.step ⟨stack, .inStringEscU raw (left + 2)⟩ (hexChar n)
      = .ok ⟨stack, .inStringEscU (raw ++ [hexChar n]) (left + 1)⟩ := by
  simp [Scanner.step, hexDigit_hexChar hn]

theorem step_hex_last (stack : List Frame) (raw : List UInt8) {n : ℕ} (hn : n < 16) :
    Scanner.step ⟨stack, .inStringEscU raw 1⟩ (hexChar n)
      = .ok ⟨stack, .inString (raw ++ [hexChar n])⟩ := by
  simp [Scanner.step, hexDigit_hexChar hn]

/-- So does an escape of six. -/
theorem scan_unicodeEscape (stack : List Frame) (raw : List UInt8) {n : ℕ} (hn : n < 65536) :
    scan ⟨stack, .inString raw⟩ (unicodeEscape n)
      = .ok ⟨stack, .inString (raw ++ unicodeEscape n)⟩ := by
  have hslash : Scanner.step ⟨stack, .inString raw⟩ (ascii '\\')
      = .ok ⟨stack, .inStringEsc (raw ++ [ascii '\\'])⟩ := rfl
  have hu : Scanner.step ⟨stack, .inStringEsc (raw ++ [ascii '\\'])⟩ (ascii 'u')
      = .ok ⟨stack, .inStringEscU (raw ++ [ascii '\\'] ++ [ascii 'u']) 4⟩ := rfl
  unfold unicodeEscape
  rw [scan_cons hslash, scan_cons hu, scan_cons (step_hex _ _ 2 (by omega)),
    scan_cons (step_hex _ _ 1 (by omega)), scan_cons (step_hex _ _ 0 (by omega)),
    scan_cons (step_hex_last _ _ (by omega)), scan_nil]
  simp only [List.append_assoc, List.cons_append, List.nil_append]

/-- A string goes on after each of its characters. -/
theorem scan_escapeChar (stack : List Frame) (raw : List UInt8) (c : Char) :
    scan ⟨stack, .inString raw⟩ (escapeChar c) = .ok ⟨stack, .inString (raw ++ escapeChar c)⟩ := by
  unfold escapeChar
  split_ifs with hquoted hn hr ht hescaped
  · rcases hquoted with rfl | rfl
    · exact scan_escape stack raw (by decide)
    · exact scan_escape stack raw (by decide)
  · exact scan_escape stack raw (by decide)
  · exact scan_escape stack raw (by decide)
  · exact scan_escape stack raw (by decide)
  · refine scan_unicodeEscape stack raw ?_
    simp only [List.mem_cons, List.not_mem_nil, or_false] at hescaped
    omega
  · obtain ⟨hquote, hslash⟩ := not_or.mp hquoted
    exact scan_plain (plain_utf8EncodeChar hquote hslash (Nat.not_lt.mp (not_or.mp hescaped).1))

theorem getu4_of_ne {u : UInt8} (hu : glyph u ≠ 'u') (b : UInt8) (rest : List UInt8) :
    getu4 (b :: u :: rest) = none := by
  unfold getu4
  split
  next heq =>
    simp only [List.cons.injEq] at heq
    obtain ⟨-, rfl, -⟩ := heq
    rw [if_neg fun h => hu h.2]
  next => rfl

theorem unquoteChar_escape {e : UInt8} (he : glyph e ≠ 'u') (rest : List UInt8) :
    unquoteChar (ascii '\\') (e :: rest) = (unescape (glyph e), rest) := by
  have hslash : glyph (ascii '\\') = '\\' := rfl
  unfold unquoteChar
  rw [if_pos hslash, getu4_of_ne he]

/-- Below the surrogates `\u` names the character itself. -/
theorem unquoteChar_unicodeEscape {n : ℕ} (hn : n < 0xD800) (rest : List UInt8) :
    unquoteChar (ascii '\\') ((unicodeEscape n).tail ++ rest) = (Char.ofNat n, rest) := by
  have hget : getu4 (unicodeEscape n ++ rest) = some (n, rest) := by
    have hvalue : ((n / 4096 * 16 + n / 256 % 16) * 16 + n / 16 % 16) * 16 + n % 16 = n := by omega
    simp only [unicodeEscape, getu4, List.cons_append, List.nil_append]
    rw [if_pos ⟨rfl, rfl⟩, hexDigit_hexChar (by omega), hexDigit_hexChar (by omega),
      hexDigit_hexChar (by omega), hexDigit_hexChar (by omega)]
    exact congrArg (fun k => some (k, rest)) hvalue
  have hslash : glyph (ascii '\\') = '\\' := rfl
  unfold unquoteChar
  rw [if_pos hslash]
  show (match getu4 (unicodeEscape n ++ rest), _ with
    | some (unit, rest'), _ => unquoteUnit unit rest'
    | none, e :: rest' => (unescape (glyph e), rest')
    | none, [] => (glyph (ascii '\\'), [])) = _
  rw [hget]
  show unquoteUnit n rest = _
  unfold unquoteUnit
  rw [if_neg (by omega)]

theorem unquoteChar_utf8 {c : Char} (hc : 128 ≤ c.toNat) {b : UInt8} {t rest : List UInt8}
    (h : String.utf8EncodeChar c ++ rest = b :: t) : unquoteChar b t = (c, rest) := by
  have hb : 128 ≤ b.toNat := by
    refine large_utf8EncodeChar hc b ?_
    cases henc : String.utf8EncodeChar c with
    | nil => exact absurd henc (utf8EncodeChar_ne_nil c)
    | cons b' t' =>
      rw [henc, List.cons_append, List.cons.injEq] at h
      rw [h.1]
      exact List.mem_cons_self
  unfold unquoteChar
  rw [if_neg (glyph_ne_of_large hb (by decide)), if_neg (Nat.not_lt.mpr hb), ← h,
    List.toByteArray_append, ByteArray.utf8DecodeChar?_utf8EncodeChar_append]
  show (c, (String.utf8EncodeChar c ++ rest).drop c.utf8Size) = _
  rw [← String.length_utf8EncodeChar, List.drop_left]

/-- **A character is read back**, however it was written. -/
theorem unquoteChar_escapeChar (c : Char) (rest : List UInt8) :
    ∃ b t, escapeChar c ++ rest = b :: t ∧ unquoteChar b t = (c, rest) := by
  unfold escapeChar
  split_ifs with hquoted hn hr ht hescaped
  · rcases hquoted with rfl | rfl
    · exact ⟨_, _, rfl, unquoteChar_escape (by decide) rest⟩
    · exact ⟨_, _, rfl, unquoteChar_escape (by decide) rest⟩
  · exact ⟨_, _, rfl, hn ▸ unquoteChar_escape (by decide) rest⟩
  · exact ⟨_, _, rfl, hr ▸ unquoteChar_escape (by decide) rest⟩
  · exact ⟨_, _, rfl, ht ▸ unquoteChar_escape (by decide) rest⟩
  · have hsmall : c.toNat < 0xD800 := by
      simp only [List.mem_cons, List.not_mem_nil, or_false] at hescaped
      omega
    refine ⟨_, _, rfl, (unquoteChar_unicodeEscape hsmall rest).trans ?_⟩
    rw [Char.ofNat_toNat]
  · by_cases hc : c.toNat < 128
    · refine ⟨ascii c, rest, by rw [utf8EncodeChar_ascii hc]; rfl, ?_⟩
      unfold unquoteChar
      rw [glyph_ascii hc, if_neg (not_or.mp hquoted).2, if_pos (toNat_ascii hc ▸ hc)]
    · cases h : String.utf8EncodeChar c ++ rest with
      | nil => exact absurd (List.append_eq_nil_iff.mp h).1 (utf8EncodeChar_ne_nil c)
      | cons b t => exact ⟨b, t, rfl, unquoteChar_utf8 (Nat.not_lt.mp hc) h⟩

/-! ### Strings -/

theorem scan_chars (stack : List Frame) (raw : List UInt8) (cs : List Char) :
    scan ⟨stack, .inString raw⟩ (cs.flatMap escapeChar)
      = .ok ⟨stack, .inString (raw ++ cs.flatMap escapeChar)⟩ := by
  induction cs generalizing raw with
  | nil => rw [List.flatMap_nil, List.append_nil, scan_nil]
  | cons c cs ih =>
    rw [List.flatMap_cons, scan_append (scan_escapeChar stack raw c), ih, List.append_assoc]

/-- The fuel of `unquote` is enough for every character. -/
theorem unquoteChars_escape {cs : List Char} {n : ℕ} (h : cs.length ≤ n) :
    unquoteChars n (cs.flatMap escapeChar) = cs := by
  induction cs generalizing n with
  | nil => cases n <;> rfl
  | cons c cs ih =>
    cases n with
    | zero => exact absurd h (by simp)
    | succ n =>
      obtain ⟨b, t, hbytes, hchar⟩ := unquoteChar_escapeChar c (cs.flatMap escapeChar)
      rw [List.flatMap_cons, hbytes, unquoteChars, hchar, ih (Nat.le_of_succ_le_succ h)]

theorem length_escape (cs : List Char) : cs.length ≤ (cs.flatMap escapeChar).length := by
  induction cs with
  | nil => exact le_rfl
  | cons c cs ih =>
    obtain ⟨b, t, hbytes, -⟩ := unquoteChar_escapeChar c []
    rw [List.append_nil] at hbytes
    rw [List.flatMap_cons, List.length_append, hbytes, List.length_cons, List.length_cons]
    omega

/-- A string is read back. -/
theorem unquote_escape (s : String) : unquote (s.toList.flatMap escapeChar) = s := by
  unfold unquote
  rw [unquoteChars_escape (length_escape s.toList), String.ofList_toList]

/-- A string is read up to its closing quote. -/
theorem scan_renderString {stack : List Frame} {mode : Mode}
    (hmode : Scanner.step ⟨stack, mode⟩ (ascii '\"') = .ok ⟨stack, .inString []⟩) (s : String) :
    scan ⟨stack, mode⟩ (renderString s)
      = .ok (endString stack (s.toList.flatMap escapeChar)) := by
  have hclose : Scanner.step ⟨stack, .inString ([] ++ s.toList.flatMap escapeChar)⟩ (ascii '\"')
      = .ok (endString stack ([] ++ s.toList.flatMap escapeChar)) := rfl
  unfold renderString
  rw [List.cons_append, scan_cons hmode, scan_append (scan_chars stack [] s.toList),
    scan_cons hclose, scan_nil, List.nil_append]

/-! ### Numbers -/

/-- Digits are read from the last one on. -/
theorem foldr_digits {ds : List ℕ} (h : ∀ d ∈ ds, d < 10) :
    ds.foldr (fun d n => 10 * n + ((UInt8.ofNat (48 + d)).toNat - 48)) 0 = Nat.ofDigits 10 ds := by
  induction ds with
  | nil => rfl
  | cons d ds ih =>
    have hd : (UInt8.ofNat (48 + d)).toNat - 48 = d := by
      have hlt := h d List.mem_cons_self
      rw [UInt8.toNat_ofNat']
      omega
    rw [List.foldr_cons, ih fun d' hd' => h d' (List.mem_cons_of_mem _ hd'), hd,
      Nat.ofDigits_cons]
    exact Nat.add_comm _ _

/-- A natural number is read back from its digits. -/
theorem decimal_natDigits (n : ℕ) : decimal (natDigits n) = n := by
  unfold natDigits
  split_ifs with hn
  · rw [hn]
    rfl
  · unfold decimal
    rw [List.foldl_map, List.foldl_reverse,
      foldr_digits fun d hd => Nat.digits_lt_base (by norm_num) hd, Nat.ofDigits_digits]

theorem digits_natDigits (n : ℕ) : ∀ b ∈ natDigits n, isDigit b = true := by
  unfold natDigits
  split_ifs with hn
  · intro b hb
    obtain rfl := List.mem_singleton.mp hb
    rfl
  · intro b hb
    obtain ⟨d, hd, rfl⟩ := List.mem_map.mp hb
    have hlt : d < 10 := Nat.digits_lt_base (by norm_num) (List.mem_reverse.mp hd)
    interval_cases d <;> rfl

/-- The digits of a number are a zero, or do not start with one. -/
theorem natDigits_cases (n : ℕ) : natDigits n = [ascii '0'] ∨
    ∃ d ds, natDigits n = UInt8.ofNat (48 + d) :: ds ∧ 0 < d ∧ d < 10 := by
  unfold natDigits
  split_ifs with hn
  · exact Or.inl rfl
  · have hne : Nat.digits 10 n ≠ [] := Nat.digits_ne_nil_iff_ne_zero.mpr hn
    have hlast : (Nat.digits 10 n).getLast hne ≠ 0 := Nat.getLast_digit_ne_zero 10 hn
    have hlt : (Nat.digits 10 n).getLast hne < 10 :=
      Nat.digits_lt_base (by norm_num) (List.getLast_mem hne)
    refine Or.inr ⟨(Nat.digits 10 n).getLast hne,
      ((Nat.digits 10 n).dropLast.reverse).map fun d => UInt8.ofNat (48 + d), ?_,
      Nat.pos_of_ne_zero hlast, hlt⟩
    conv_lhs => rw [← List.dropLast_append_getLast hne]
    rw [List.reverse_append, List.reverse_singleton, List.singleton_append, List.map_cons]

/-- Digits keep the scanner in the digits. -/
theorem scan_digits {stack : List Frame} {state : NumberState} {raw ds : List UInt8}
    (hstate : state = .digits ∨ state = .exp0) (hds : ∀ b ∈ ds, isDigit b = true) :
    scan ⟨stack, .number state raw⟩ ds = .ok ⟨stack, .number state (raw ++ ds)⟩ := by
  induction ds generalizing raw with
  | nil => rw [List.append_nil, scan_nil]
  | cons b ds ih =>
    have hnext : state.next b = .more state := by
      have hb := hds b List.mem_cons_self
      rcases hstate with rfl | rfl <;> simp [NumberState.next, hb]
    have hstep : Scanner.step ⟨stack, .number state raw⟩ b
        = .ok ⟨stack, .number state (raw ++ [b])⟩ := by
      simp only [Scanner.step, hnext]
    rw [scan_cons hstep, ih fun b' hb' => hds b' (List.mem_cons_of_mem _ hb'), List.append_assoc]
    rfl

/-- The digits of a natural number, at the start of a value or after a sign. -/
theorem scan_natDigits {stack : List Frame} {mode : Mode} {raw : List UInt8}
    (hzero : Scanner.step ⟨stack, mode⟩ (ascii '0')
      = .ok ⟨stack, .number .zero (raw ++ [ascii '0'])⟩)
    (hdigit : ∀ d, 0 < d → d < 10 → Scanner.step ⟨stack, mode⟩ (UInt8.ofNat (48 + d))
      = .ok ⟨stack, .number .digits (raw ++ [UInt8.ofNat (48 + d)])⟩) (n : ℕ) :
    ∃ state, (state = .zero ∨ state = .digits) ∧
      scan ⟨stack, mode⟩ (natDigits n) = .ok ⟨stack, .number state (raw ++ natDigits n)⟩ := by
  have hall := digits_natDigits n
  rcases natDigits_cases n with h | ⟨d, ds, h, hpos, hlt⟩
  · rw [h, scan_cons hzero, scan_nil]
    exact ⟨.zero, Or.inl rfl, rfl⟩
  · rw [h] at hall ⊢
    rw [scan_cons (hdigit d hpos hlt),
      scan_digits (Or.inl rfl) fun b hb => hall b (List.mem_cons_of_mem _ hb), List.append_assoc]
    exact ⟨.digits, Or.inr rfl, rfl⟩

/-- An integer is read as a number that can end or go on. -/
theorem scan_renderInt (stack : List Frame) (z : ℤ) :
    ∃ state, (state = .zero ∨ state = .digits) ∧
      scan ⟨stack, .beginValue⟩ (renderInt z) = .ok ⟨stack, .number state (renderInt z)⟩ := by
  unfold renderInt
  split_ifs
  · have hneg : Scanner.step ⟨stack, .beginValue⟩ (ascii '-')
        = .ok ⟨stack, .number .neg [ascii '-']⟩ := rfl
    have hzero : Scanner.step ⟨stack, .number .neg [ascii '-']⟩ (ascii '0')
        = .ok ⟨stack, .number .zero ([ascii '-'] ++ [ascii '0'])⟩ := rfl
    have hdigit : ∀ d, 0 < d → d < 10 →
        Scanner.step ⟨stack, .number .neg [ascii '-']⟩ (UInt8.ofNat (48 + d))
          = .ok ⟨stack, .number .digits ([ascii '-'] ++ [UInt8.ofNat (48 + d)])⟩ := by
      intro d hpos hlt
      interval_cases d <;> rfl
    obtain ⟨state, hstate, hscan⟩ := scan_natDigits hzero hdigit z.natAbs
    refine ⟨state, hstate, ?_⟩
    rw [scan_cons hneg, hscan]
    rfl
  · have hzero : Scanner.step ⟨stack, .beginValue⟩ (ascii '0')
        = .ok ⟨stack, .number .zero ([] ++ [ascii '0'])⟩ := rfl
    have hdigit : ∀ d, 0 < d → d < 10 →
        Scanner.step ⟨stack, .beginValue⟩ (UInt8.ofNat (48 + d))
          = .ok ⟨stack, .number .digits ([] ++ [UInt8.ofNat (48 + d)])⟩ := by
      intro d hpos hlt
      interval_cases d <;> rfl
    exact scan_natDigits hzero hdigit z.natAbs

theorem glyph_ne_of_digit {b : UInt8} (hb : isDigit b = true) {c : Char}
    (hc : c.toNat < 48 ∨ 57 < c.toNat) : glyph b ≠ c := by
  rintro rfl
  rw [toNat_glyph] at hc
  simp only [isDigit, Bool.and_eq_true, decide_eq_true_eq] at hb
  omega

theorem natDigits_ne_nil (n : ℕ) : natDigits n ≠ [] := by
  rcases natDigits_cases n with h | ⟨d, ds, h, -⟩
  · rw [h]
    exact List.cons_ne_nil _ _
  · rw [h]
    exact List.cons_ne_nil _ _

/-- The digits of an exponent. -/
theorem scan_exponentDigits (stack : List Frame) {start : NumberState} (raw : List UInt8) (n : ℕ)
    (hstart : ∀ b, isDigit b = true → start.next b = .more .exp0) :
    scan ⟨stack, .number start raw⟩ (natDigits n)
      = .ok ⟨stack, .number .exp0 (raw ++ natDigits n)⟩ := by
  have hall := digits_natDigits n
  cases h : natDigits n with
  | nil => exact absurd h (natDigits_ne_nil n)
  | cons b ds =>
    rw [h] at hall
    have hstep : Scanner.step ⟨stack, .number start raw⟩ b
        = .ok ⟨stack, .number .exp0 (raw ++ [b])⟩ := by
      simp only [Scanner.step, hstart b (hall b List.mem_cons_self)]
    rw [scan_cons hstep, scan_digits (Or.inr rfl) fun b' hb' => hall b' (List.mem_cons_of_mem _ hb'),
      List.append_assoc]
    rfl

/-- The exponent of a number. -/
theorem scan_exponent (stack : List Frame) {state : NumberState} (raw : List UInt8)
    (hstate : state = .zero ∨ state = .digits) (z : ℤ) :
    scan ⟨stack, .number state raw⟩ (ascii 'e' :: renderInt z)
      = .ok ⟨stack, .number .exp0 (raw ++ ascii 'e' :: renderInt z)⟩ := by
  have hexp : Scanner.step ⟨stack, .number state raw⟩ (ascii 'e')
      = .ok ⟨stack, .number .exp (raw ++ [ascii 'e'])⟩ := by
    rcases hstate with rfl | rfl <;> rfl
  rw [scan_cons hexp]
  unfold renderInt
  split_ifs
  · have hsign : Scanner.step ⟨stack, .number .exp (raw ++ [ascii 'e'])⟩ (ascii '-')
        = .ok ⟨stack, .number .expSign (raw ++ [ascii 'e'] ++ [ascii '-'])⟩ := rfl
    have hstart : ∀ b, isDigit b = true → NumberState.expSign.next b = .more .exp0 := by
      intro b hb
      simp only [NumberState.next, hb, if_true]
    rw [scan_cons hsign, scan_exponentDigits stack _ _ hstart]
    simp only [List.append_assoc, List.cons_append, List.nil_append]
  · have hstart : ∀ b, isDigit b = true → NumberState.exp.next b = .more .exp0 := by
      intro b hb
      have hsign : ¬ (glyph b = '+' ∨ glyph b = '-') :=
        not_or.mpr ⟨glyph_ne_of_digit hb (by decide), glyph_ne_of_digit hb (by decide)⟩
      simp only [NumberState.next, if_neg hsign, hb, if_true]
    rw [scan_exponentDigits stack _ _ hstart]
    simp only [List.append_assoc, List.cons_append, List.nil_append]

/-- An integer is read back. -/
theorem signed_renderInt (z : ℤ) : signed (renderInt z) = z := by
  unfold renderInt
  split_ifs with hz
  · have hminus : glyph (ascii '-') = '-' := rfl
    rw [signed, if_pos hminus, decimal_natDigits]
    omega
  · have hall := digits_natDigits z.natAbs
    cases h : natDigits z.natAbs with
    | nil => exact absurd h (natDigits_ne_nil _)
    | cons b ds =>
      rw [h] at hall
      have hb := hall b List.mem_cons_self
      rw [signed, if_neg (glyph_ne_of_digit hb (by decide)),
        if_neg (glyph_ne_of_digit hb (by decide)), ← h, decimal_natDigits]
      omega

/-- An integer has neither a point nor an exponent. -/
theorem renderInt_plain (z : ℤ) : ∀ b ∈ renderInt z, isExponent b = false ∧ glyph b ≠ '.' := by
  have hdigit : ∀ b, isDigit b = true → isExponent b = false ∧ glyph b ≠ '.' := by
    intro b hb
    refine ⟨?_, glyph_ne_of_digit hb (by decide)⟩
    simp only [isExponent, Bool.or_eq_false_iff, decide_eq_false_iff_not]
    exact ⟨glyph_ne_of_digit hb (by decide), glyph_ne_of_digit hb (by decide)⟩
  intro b hb
  unfold renderInt at hb
  split_ifs at hb
  · rcases List.mem_cons.mp hb with rfl | hb
    · decide
    · exact hdigit b (digits_natDigits _ b hb)
  · exact hdigit b (digits_natDigits _ b hb)

/-- What an integer starts with is neither a space nor the end of an array. -/
theorem renderInt_head (z : ℤ) :
    ∃ b t, renderInt z = b :: t ∧ isSpace b = false ∧ glyph b ≠ ']' := by
  unfold renderInt
  split_ifs
  · exact ⟨_, _, rfl, by decide, by decide⟩
  · have hall := digits_natDigits z.natAbs
    cases h : natDigits z.natAbs with
    | nil => exact absurd h (natDigits_ne_nil _)
    | cons b t =>
      rw [h] at hall
      have hb := hall b List.mem_cons_self
      refine ⟨b, t, rfl, ?_, glyph_ne_of_digit hb (by decide)⟩
      simp only [isSpace, Bool.or_eq_false_iff, decide_eq_false_iff_not]
      exact ⟨⟨⟨glyph_ne_of_digit hb (by decide), glyph_ne_of_digit hb (by decide)⟩,
        glyph_ne_of_digit hb (by decide)⟩, glyph_ne_of_digit hb (by decide)⟩

/-- A number is read back. -/
theorem convertNumber_render (m e : ℤ) : convertNumber (renderNumber m e) = .num m e := by
  have hexp : ∀ b ∈ renderInt m, (!isExponent b) = true := by
    intro b hb
    rw [(renderInt_plain m b hb).1]
    rfl
  have hpoint : ∀ b ∈ renderInt m, (decide (glyph b ≠ '.')) = true := fun b hb =>
    decide_eq_true (renderInt_plain m b hb).2
  have hint : (renderInt m).takeWhile (fun b => glyph b ≠ '.') = renderInt m :=
    List.takeWhile_eq_self_iff.mpr hpoint
  have hfrac : (renderInt m).dropWhile (fun b => glyph b ≠ '.') = [] :=
    List.dropWhile_eq_nil_iff.mpr hpoint
  unfold renderNumber
  split_ifs with he
  · have hmantissa : (renderInt m).takeWhile (fun b => !isExponent b) = renderInt m :=
      List.takeWhile_eq_self_iff.mpr hexp
    simp only [convertNumber, hmantissa, hint, hfrac, List.drop_nil, List.append_nil, if_true,
      signed_renderInt, he]
  · have hmantissa : (renderInt m ++ ascii 'e' :: renderInt e).takeWhile (fun b => !isExponent b)
        = renderInt m := by
      rw [List.takeWhile_append_of_pos hexp, List.takeWhile_cons_of_neg (by decide),
        List.append_nil]
    have hrest : (renderInt m ++ ascii 'e' :: renderInt e).dropWhile (fun b => !isExponent b)
        = ascii 'e' :: renderInt e := by
      rw [List.dropWhile_append_of_pos hexp, List.dropWhile_cons_of_neg (by decide)]
    have hlength : (renderInt m).length ≠ (renderInt m ++ ascii 'e' :: renderInt e).length := by
      rw [List.length_append, List.length_cons]
      omega
    simp only [convertNumber, hmantissa, hint, hfrac, hrest, List.drop_nil, List.append_nil,
      if_neg hlength, List.drop_one, List.tail_cons, signed_renderInt, List.length_nil,
      Nat.cast_zero, sub_zero, if_neg he]

/-! ### Values -/

/-- The bytes that may follow a value. -/
def boundary : List UInt8 := [',', ']', '\x7d', ' '].map ascii

/-- At a byte that may follow a value, the scanner goes on as after the value `j`. -/
def Ends (s : Scanner) (stack : List Frame) (j : Json) : Prop :=
  ∀ b ∈ boundary, s.step b = stepEndValue stack j b

theorem ends_endValue (stack : List Frame) (j : Json) : Ends ⟨stack, .endValue j⟩ stack j :=
  fun _ _ => rfl

/-- A number ends where something else begins. -/
theorem ends_number {state : NumberState} (hstate : state = .zero ∨ state = .digits ∨ state = .exp0)
    (stack : List Frame) (raw : List UInt8) :
    Ends ⟨stack, .number state raw⟩ stack (convertNumber raw) := by
  have hdone : ∀ b ∈ boundary, state.next b = .done := by
    intro b hb
    simp only [boundary, List.map_cons, List.map_nil, List.mem_cons, List.not_mem_nil,
      or_false] at hb
    rcases hstate with rfl | rfl | rfl <;> rcases hb with rfl | rfl | rfl | rfl <;> rfl
  intro b hb
  simp only [Scanner.step, hdone b hb]

/-- A number is read back. -/
theorem scan_renderNumber (stack : List Frame) (m e : ℤ) :
    ∃ s, scan ⟨stack, .beginValue⟩ (renderNumber m e) = .ok s ∧ Ends s stack (.num m e) := by
  rw [← convertNumber_render m e]
  obtain ⟨state, hstate, hscan⟩ := scan_renderInt stack m
  unfold renderNumber
  split_ifs
  · refine ⟨_, hscan, ends_number ?_ stack _⟩
    exact hstate.imp_right Or.inl
  · rw [scan_append hscan, scan_exponent stack _ hstate]
    exact ⟨_, rfl, ends_number (Or.inr (Or.inr rfl)) stack _⟩

/-- The innermost array or object is at a value, not at a key. -/
def AtValue (stack : List Frame) : Prop := ∀ fields rest, stack ≠ .objectKey fields :: rest

theorem endString_value {stack : List Frame} (hstack : AtValue stack) (raw : List UInt8) :
    endString stack raw = ⟨stack, .endValue (.str (unquote raw))⟩ := by
  unfold endString
  split
  next fields rest => exact absurd rfl (hstack fields rest)
  next => rfl

/-- What a text starts with is neither a space nor the end of an array. -/
theorem render_head (j : Json) : ∃ b t, render j = b :: t ∧ isSpace b = false ∧ glyph b ≠ ']' := by
  cases j with
  | null => exact ⟨_, _, rfl, by decide, by decide⟩
  | bool v => cases v <;> exact ⟨_, _, rfl, by decide, by decide⟩
  | num m e =>
    obtain ⟨b, t, hint, hspace, hclose⟩ := renderInt_head m
    show ∃ b t, renderNumber m e = b :: t ∧ _
    unfold renderNumber
    split_ifs
    · exact ⟨b, t, hint, hspace, hclose⟩
    · rw [hint]
      exact ⟨b, _, rfl, hspace, hclose⟩
  | str s => exact ⟨_, _, rfl, by decide, by decide⟩
  | arr items => cases items <;> exact ⟨_, _, by rw [render]; rfl, by decide, by decide⟩
  | obj fields => cases fields <;> exact ⟨_, _, by rw [render]; rfl, by decide, by decide⟩

/-- The first item of an array is read as any other. -/
theorem scan_orEmpty (stack : List Frame) (j : Json) (rest : List UInt8) :
    scan ⟨stack, .beginValueOrEmpty⟩ (render j ++ rest)
      = scan ⟨stack, .beginValue⟩ (render j ++ rest) := by
  obtain ⟨b, t, hrender, hspace, hclose⟩ := render_head j
  have hstep : Scanner.step ⟨stack, .beginValueOrEmpty⟩ b = Scanner.step ⟨stack, .beginValue⟩ b := by
    simp only [Scanner.step, hspace, Bool.false_eq_true, if_false]
    split
    · exact absurd (by assumption) hclose
    · rfl
  rw [hrender, List.cons_append]
  unfold scan
  rw [List.foldlM_cons, List.foldlM_cons, hstep]

/-- A key and the colon after it. -/
theorem scan_key {stack : List Frame} {fields : List (String × Json)} {mode : Mode}
    (hmode : Scanner.step ⟨.objectKey fields :: stack, mode⟩ (ascii '\"')
      = .ok ⟨.objectKey fields :: stack, .inString []⟩) (key : String) (rest : List UInt8) :
    scan ⟨.objectKey fields :: stack, mode⟩ (renderString key ++ ascii ':' :: rest)
      = scan ⟨.objectValue fields key :: stack, .beginValue⟩ rest := by
  have hkey : endString (.objectKey fields :: stack) (key.toList.flatMap escapeChar)
      = ⟨.objectKey fields :: stack, .endKey key⟩ := by
    show Scanner.mk _ (.endKey (unquote (key.toList.flatMap escapeChar))) = _
    rw [unquote_escape]
  have hcolon : Scanner.step ⟨.objectKey fields :: stack, .endKey key⟩ (ascii ':')
      = .ok ⟨.objectValue fields key :: stack, .beginValue⟩ := rfl
  rw [scan_append (scan_renderString hmode key), hkey, scan_cons hcolon]

mutual

/-- **A document is read back from its text**, up to the byte that follows it. -/
theorem scan_render : ∀ (j : Json) (stack : List Frame), AtValue stack →
    ∃ s, scan ⟨stack, .beginValue⟩ (render j) = .ok s ∧ Ends s stack j
  | .null, stack, _ => ⟨_, rfl, ends_endValue stack .null⟩
  | .bool true, stack, _ => ⟨_, rfl, ends_endValue stack (.bool true)⟩
  | .bool false, stack, _ => ⟨_, rfl, ends_endValue stack (.bool false)⟩
  | .num m e, stack, _ => scan_renderNumber stack m e
  | .str s, stack, hstack => by
    have hmode : Scanner.step ⟨stack, .beginValue⟩ (ascii '\"') = .ok ⟨stack, .inString []⟩ := rfl
    refine ⟨_, scan_renderString hmode s, ?_⟩
    rw [endString_value hstack, unquote_escape]
    exact ends_endValue stack (.str s)
  | .arr [], stack, _ => ⟨_, rfl, ends_endValue stack (.arr [])⟩
  | .arr (j :: js), stack, _ => by
    have hopen : Scanner.step ⟨stack, .beginValue⟩ (ascii '[')
        = .ok ⟨.array [] :: stack, .beginValueOrEmpty⟩ := rfl
    obtain ⟨s, hscan, hends⟩ := scan_render j (.array [] :: stack)
      fun _ _ h => Frame.noConfusion (List.cons.inj h).1
    refine ⟨⟨stack, .endValue (.arr (j :: js))⟩, ?_, ends_endValue stack _⟩
    rw [render, List.cons_append, scan_cons hopen, scan_orEmpty, scan_append hscan]
    exact scan_renderItems js hends
  | .obj [], stack, _ => ⟨_, rfl, ends_endValue stack (.obj [])⟩
  | .obj ((key, j) :: fields), stack, _ => by
    have hopen : Scanner.step ⟨stack, .beginValue⟩ (ascii '\x7b')
        = .ok ⟨.objectKey [] :: stack, .beginStringOrEmpty⟩ := rfl
    have hmode : Scanner.step ⟨.objectKey [] :: stack, .beginStringOrEmpty⟩ (ascii '\"')
        = .ok ⟨.objectKey [] :: stack, .inString []⟩ := rfl
    obtain ⟨s, hscan, hends⟩ := scan_render j (.objectValue [] key :: stack)
      fun _ _ h => Frame.noConfusion (List.cons.inj h).1
    refine ⟨⟨stack, .endValue (.obj ((key, j) :: fields))⟩, ?_, ends_endValue stack _⟩
    rw [render, List.append_assoc, List.cons_append, scan_cons hopen, List.cons_append,
      scan_key hmode, scan_append hscan]
    exact scan_renderFields fields hends

theorem scan_renderItems : ∀ (js : List Json) {s : Scanner} {stack : List Frame}
    {items : List Json} {j : Json}, Ends s (.array items :: stack) j →
    scan s (renderItems js) = .ok ⟨stack, .endValue (.arr (items ++ j :: js))⟩
  | [], s, stack, items, j, hends => by
    have hclose : s.step (ascii ']') = .ok ⟨stack, .endValue (.arr (items ++ [j]))⟩ :=
      hends _ (by decide)
    rw [renderItems, scan_cons hclose, scan_nil]
  | j' :: js, s, stack, items, j, hends => by
    have hcomma : s.step (ascii ',') = .ok ⟨.array (items ++ [j]) :: stack, .beginValue⟩ :=
      hends _ (by decide)
    obtain ⟨s', hscan, hends'⟩ := scan_render j' (.array (items ++ [j]) :: stack)
      fun _ _ h => Frame.noConfusion (List.cons.inj h).1
    rw [renderItems, List.cons_append, scan_cons hcomma, scan_append hscan,
      scan_renderItems js hends', List.append_assoc]
    rfl

theorem scan_renderFields : ∀ (fields' : List (String × Json)) {s : Scanner} {stack : List Frame}
    {fields : List (String × Json)} {key : String} {j : Json},
    Ends s (.objectValue fields key :: stack) j →
    scan s (renderFields fields') = .ok ⟨stack, .endValue (.obj (fields ++ (key, j) :: fields'))⟩
  | [], s, stack, fields, key, j, hends => by
    have hclose : s.step (ascii '\x7d') = .ok ⟨stack, .endValue (.obj (fields ++ [(key, j)]))⟩ :=
      hends _ (by decide)
    rw [renderFields, scan_cons hclose, scan_nil]
  | (key', j') :: fields', s, stack, fields, key, j, hends => by
    have hcomma : s.step (ascii ',')
        = .ok ⟨.objectKey (fields ++ [(key, j)]) :: stack, .beginString⟩ := hends _ (by decide)
    have hmode : Scanner.step ⟨.objectKey (fields ++ [(key, j)]) :: stack, .beginString⟩
        (ascii '\"') = .ok ⟨.objectKey (fields ++ [(key, j)]) :: stack, .inString []⟩ := rfl
    obtain ⟨s', hscan, hends'⟩ := scan_render j' (.objectValue (fields ++ [(key, j)]) key' :: stack)
      fun _ _ h => Frame.noConfusion (List.cons.inj h).1
    rw [renderFields, List.append_assoc, List.cons_append, scan_cons hcomma, List.cons_append,
      scan_key hmode, scan_append hscan, scan_renderFields fields' hends', List.append_assoc]
    rfl

end

/-- **Every document is read back from the text that is written for it.** -/
theorem parse_render (j : Json) : parse (render j) = .ok j := by
  obtain ⟨s, hscan, hends⟩ := scan_render j [] fun _ _ h => absurd h (by simp)
  have hspace : s.step (ascii ' ') = .ok ⟨[], .endValue j⟩ := hends _ (by decide)
  simp only [parse, hscan, Scanner.eof, hspace]

/-! ## The first value of a stream -/

/-- The value of a scanner that has just come to the end of a document. -/
def Scanner.finished : Scanner → Option Json
  | ⟨[], .endValue value⟩ => some value
  | _ => none

/-- The rest of a stream, up to the end of the document. -/
def parseFirstFrom (s : Scanner) : List UInt8 → Except SyntaxError Json
  | [] => s.eof
  | b :: rest =>
    match s.step b with
    | .error e => .error e
    | .ok s' =>
      match s'.finished with
      | some value => .ok value
      | none => parseFirstFrom s' rest

/-- `Decoder.Decode` reads the first document of a stream and leaves what follows it.  A number
that is a document by itself has to be followed by a space. -/
def parseFirst (bytes : List UInt8) : Except SyntaxError Json := parseFirstFrom ⟨[], .beginValue⟩ bytes

theorem finished_eq_some {s : Scanner} {j : Json} (h : s.finished = some j) :
    s = ⟨[], .endValue j⟩ := by
  unfold Scanner.finished at h
  split at h
  · cases h
    rfl
  · cases h

/-- After the end of a document only spaces can follow. -/
theorem spaces_of_scan {j : Json} {bytes : List UInt8} {t : Scanner}
    (h : scan ⟨[], .endValue j⟩ bytes = .ok t) : ∀ b ∈ bytes, isSpace b = true := by
  induction bytes with
  | nil => simp
  | cons b rest ih =>
    cases hb : isSpace b with
    | false =>
      have hstep : Scanner.step ⟨[], .endValue j⟩ b = unexpected b "after top-level value" := by
        show stepEndValue [] j b = _
        rw [stepEndValue, hb]
        rfl
      rw [scan, List.foldlM_cons, hstep] at h
      cases h
    | true =>
      have hstep : Scanner.step ⟨[], .endValue j⟩ b = .ok ⟨[], .endValue j⟩ := by
        show stepEndValue [] j b = _
        rw [stepEndValue, hb]
        rfl
      rw [scan_cons hstep] at h
      intro c hc
      rcases List.mem_cons.mp hc with rfl | hc
      · exact hb
      · exact ih h c hc

/-- **A document that does not end in a space is the first of its stream**, whatever follows. -/
theorem parseFirstFrom_append {s : Scanner} {bytes : List UInt8} {last : UInt8} {j : Json}
    (hlast : isSpace last = false) (h : scan s (bytes ++ [last]) = .ok ⟨[], .endValue j⟩)
    (rest : List UInt8) : parseFirstFrom s (bytes ++ last :: rest) = .ok j := by
  induction bytes generalizing s with
  | nil =>
    have hstep : s.step last = .ok ⟨[], .endValue j⟩ := by
      cases hs : s.step last with
      | error e =>
        rw [List.nil_append, scan, List.foldlM_cons, hs] at h
        cases h
      | ok t =>
        rw [List.nil_append, scan_cons hs, scan_nil] at h
        exact h
    rw [List.nil_append, parseFirstFrom, hstep]
    rfl
  | cons b bytes ih =>
    cases hs : s.step b with
    | error e =>
      rw [List.cons_append, scan, List.foldlM_cons, hs] at h
      cases h
    | ok t =>
      rw [List.cons_append, scan_cons hs] at h
      rw [List.cons_append, parseFirstFrom, hs]
      dsimp only
      cases hf : t.finished with
      | some v =>
        -- the document would have ended before its last byte, which is no space
        rw [finished_eq_some hf] at h
        have hspace := spaces_of_scan h last (by simp)
        rw [hlast] at hspace
        cases hspace
      | none => exact ih h

/-- The text of the further fields of an object ends in its brace. -/
theorem renderFields_last (fields : List (String × Json)) :
    ∃ front, renderFields fields = front ++ [ascii '\x7d'] := by
  induction fields with
  | nil => exact ⟨[], rfl⟩
  | cons f fields ih =>
    obtain ⟨front, hfront⟩ := ih
    obtain ⟨key, j⟩ := f
    exact ⟨ascii ',' :: renderString key ++ ascii ':' :: render j ++ front, by
      rw [renderFields, hfront]
      simp⟩

theorem render_obj_last (fields : List (String × Json)) :
    ∃ front, render (.obj fields) = front ++ [ascii '\x7d'] := by
  cases fields with
  | nil => exact ⟨[ascii '\x7b'], by rw [render]; rfl⟩
  | cons f fields =>
    obtain ⟨front, hfront⟩ := renderFields_last fields
    obtain ⟨key, j⟩ := f
    exact ⟨ascii '\x7b' :: renderString key ++ ascii ':' :: render j ++ front, by
      rw [render, hfront]
      simp⟩

/-- **An object is read back from the start of a stream.** -/
theorem parseFirst_render (fields : List (String × Json)) (rest : List UInt8) :
    parseFirst (render (.obj fields) ++ rest) = .ok (.obj fields) := by
  obtain ⟨front, hfront⟩ := render_obj_last fields
  have hscan : scan ⟨[], .beginValue⟩ (render (.obj fields)) = .ok ⟨[], .endValue (.obj fields)⟩ := by
    cases fields with
    | nil => rfl
    | cons f fields =>
      obtain ⟨key, j⟩ := f
      have hopen : Scanner.step ⟨[], .beginValue⟩ (ascii '\x7b')
          = .ok ⟨[.objectKey []], .beginStringOrEmpty⟩ := rfl
      have hmode : Scanner.step ⟨[.objectKey []], .beginStringOrEmpty⟩ (ascii '\"')
          = .ok ⟨[.objectKey []], .inString []⟩ := rfl
      obtain ⟨s, hvalue, hends⟩ := scan_render j [.objectValue [] key]
        fun _ _ h => Frame.noConfusion (List.cons.inj h).1
      rw [render, List.append_assoc, List.cons_append, scan_cons hopen, List.cons_append,
        scan_key hmode, scan_append hvalue]
      exact scan_renderFields fields hends
  rw [hfront] at hscan
  have hspace : isSpace (ascii '\x7d') = false := by decide
  rw [hfront, List.append_assoc]
  exact parseFirstFrom_append hspace hscan rest

end GoJson
