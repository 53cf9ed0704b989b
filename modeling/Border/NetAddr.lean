/-
# Addresses of the Go `net` package

The functions of the standard library that turn addresses into text and back, as
the package documents and implements them: `ParseIP`, `IP.To4`, `IP.To16`,
`IP.String`, `SplitHostPort` and `JoinHostPort`.

A `net.IP` is a slice of bytes; the nil slice is the empty list.  `ParseIP`
returns the 16-byte form of every address, also of an IPv4 one.
-/
import Mathlib

namespace NetAddr

/-- `net.IP`: 4 bytes, 16 bytes, or the empty (nil) slice. -/
abbrev IP := List UInt8

/-! ## Numbers in addresses -/

/-- The value of a decimal digit. -/
def decDigit (c : Char) : Option ℕ :=
  if '0' ≤ c ∧ c ≤ '9' then some (c.toNat - '0'.toNat) else none

/-- The value of a hexadecimal digit. -/
def hexDigit (c : Char) : Option ℕ :=
  if '0' ≤ c ∧ c ≤ '9' then some (c.toNat - '0'.toNat)
  else if 'a' ≤ c ∧ c ≤ 'f' then some (c.toNat - 'a'.toNat + 10)
  else if 'A' ≤ c ∧ c ≤ 'F' then some (c.toNat - 'A'.toNat + 10)
  else none

/-- The longest run of digits at the front of a text: its value in the given
base, its length, and the text after it. -/
def scanDigits (base : ℕ) (digit : Char → Option ℕ) : ℕ → ℕ → List Char → ℕ × ℕ × List Char
  | n, c, [] => (n, c, [])
  | n, c, x :: xs =>
    match digit x with
    | some d => scanDigits base digit (n * base + d) (c + 1) xs
    | none => (n, c, x :: xs)

/-- `dtoi`: a decimal number at the front of a text. -/
def dtoi (s : List Char) : Option (ℕ × ℕ × List Char) :=
  match scanDigits 10 decDigit 0 0 s with
  | (_, 0, _) => none
  | r => if r.1 ≥ 0xFFFFFF then none else some r

/-- `xtoi`: a hexadecimal number at the front of a text. -/
def xtoi (s : List Char) : Option (ℕ × ℕ × List Char) :=
  match scanDigits 16 hexDigit 0 0 s with
  | (_, 0, _) => none
  | r => if r.1 ≥ 0xFFFFFF then none else some r

/-- The text of a number in base ten or sixteen, most significant digit first. -/
def digits (base : ℕ) (n : ℕ) : List Char :=
  match Nat.digits base n with
  | [] => ['0']
  | ds => (ds.map Nat.digitChar).reverse

/-! ## `ParseIP` -/

/-- The first twelve bytes of an IPv4 address in 16-byte form. -/
def v4InV6Prefix : List UInt8 := [0, 0, 0, 0, 0, 0, 0, 0, 0, 0, 0xFF, 0xFF]

/-- One octet of `parseIPv4`: at most 255, and without leading zeros. -/
def parseOctet (s : List Char) : Option (UInt8 × List Char) :=
  match dtoi s with
  | none => none
  | some (n, c, rest) =>
    if n > 0xFF then none
    else if c > 1 ∧ s.head? = some '0' then none
    else some (UInt8.ofNat n, rest)

/-- The octets of `parseIPv4` that follow a dot each. -/
def parseOctets : ℕ → List Char → Option (List UInt8)
  | 0, [] => some []
  | 0, _ :: _ => none
  | k + 1, '.' :: s =>
    match parseOctet s with
    | none => none
    | some (b, rest) => (parseOctets k rest).map (b :: ·)
  | _ + 1, _ => none

/-- `parseIPv4`: four octets, in 16-byte form. -/
def parseIPv4 (s : List Char) : Option IP :=
  match parseOctet s with
  | none => none
  | some (b, rest) => (parseOctets 3 rest).map fun bs => v4InV6Prefix ++ b :: bs

/-- Put the bytes after an ellipsis to the end and fill the gap with zeros. -/
def expandEllipsis (bytes : List UInt8) : Option ℕ → Option IP
  | none => if bytes.length = 16 then some bytes else none
  | some e =>
    if bytes.length = 16 then none
    else some (bytes.take e ++ List.replicate (16 - bytes.length) 0 ++ bytes.drop e)

/-- The loop of `parseIPv6` with `k` groups still to fill: the bytes so far, the
position of the ellipsis, and the rest of the text. -/
def parseGroups : ℕ → List UInt8 → Option ℕ → List Char → Option IP
  | 0, bytes, ellipsis, s => if s = [] then expandEllipsis bytes ellipsis else none
  | k + 1, bytes, ellipsis, s =>
    match xtoi s with
    | none => none
    | some (n, _, rest) =>
      if n > 0xFFFF then none
      else
        match rest with
        | [] => expandEllipsis (bytes ++ [UInt8.ofNat (n / 256), UInt8.ofNat n]) ellipsis
        | '.' :: _ =>
          -- a trailing IPv4 address
          if ellipsis = none ∧ bytes.length ≠ 12 then none
          else if bytes.length + 4 > 16 then none
          else
            match parseIPv4 s with
            | none => none
            | some ip4 => expandEllipsis (bytes ++ ip4.drop 12) ellipsis
        | [':'] => none
        | ':' :: ':' :: rest' =>
          if ellipsis.isSome then none
          else
            let bytes' := bytes ++ [UInt8.ofNat (n / 256), UInt8.ofNat n]
            if rest' = [] then expandEllipsis bytes' (some bytes'.length)
            else parseGroups k bytes' (some bytes'.length) rest'
        | ':' :: rest' =>
          parseGroups k (bytes ++ [UInt8.ofNat (n / 256), UInt8.ofNat n]) ellipsis rest'
        | _ => none

/-- `parseIPv6`. -/
def parseIPv6 : List Char → Option IP
  | [':', ':'] => some (List.replicate 16 0)
  | ':' :: ':' :: s => parseGroups 8 [] (some 0) s
  | s => parseGroups 8 [] none s

/-- `ParseIP`: the first dot or colon decides the family; nil is `none`. -/
def parseIP (s : String) : Option IP :=
  match s.toList.find? (fun c => c = '.' ∨ c = ':') with
  | some '.' => parseIPv4 s.toList
  | some ':' => parseIPv6 s.toList
  | _ => none

/-! ## Families and text -/

/-- `IP.To4`: the four bytes of an IPv4 address in either form. -/
def to4 (ip : IP) : Option IP :=
  if ip.length = 4 then some ip
  else if ip.length = 16 ∧ ip.take 12 = v4InV6Prefix then some (ip.drop 12)
  else none

/-- `IP.To16`: the 16-byte form. -/
def to16 (ip : IP) : Option IP :=
  if ip.length = 4 then some (v4InV6Prefix ++ ip)
  else if ip.length = 16 then some ip
  else none

/-- The eight groups of a 16-byte address. -/
def groups : List UInt8 → List ℕ
  | a :: b :: rest => (a.toNat * 256 + b.toNat) :: groups rest
  | _ => []

/-- The length of the run of zero groups at the front. -/
def zeroRun : List ℕ → ℕ
  | 0 :: gs => zeroRun gs + 1
  | _ => 0

/-- The first longest run of zero groups: where it starts and how long it is. -/
def longestZeroRun : List ℕ → ℕ → ℕ × ℕ → ℕ × ℕ
  | [], _, best => best
  | g :: gs, i, best =>
    let r := zeroRun (g :: gs)
    longestZeroRun gs (i + 1) (if r > best.2 then (i, r) else best)

/-- Groups in hexadecimal, separated by colons. -/
def joinGroups (gs : List ℕ) : List Char :=
  (gs.map (digits 16)).intersperse [':'] |>.flatten

/-- `IP.String`. -/
def ipString (ip : IP) : String :=
  if ip.length = 0 then "<nil>"
  else
    match to4 ip with
    | some p4 =>
      String.ofList ((p4.map fun b => digits 10 b.toNat).intersperse ['.'] |>.flatten)
    | none =>
      if ip.length = 16 then
        let gs := groups ip
        let (e, r) := longestZeroRun gs 0 (0, 0)
        -- a single zero group is never shortened
        if r ≤ 1 then String.ofList (joinGroups gs)
        else String.ofList (joinGroups (gs.take e) ++ [':', ':'] ++ joinGroups (gs.drop (e + r)))
      else
        "?" ++ String.ofList (ip.flatMap fun b =>
          [Nat.digitChar (b.toNat / 16), Nat.digitChar (b.toNat % 16)])

/-! ## Hosts and ports -/

/-- The position of the last occurrence of a character. -/
def lastIndex (c : Char) (s : List Char) : Option ℕ :=
  (s.reverse.idxOf? c).map fun i => s.length - 1 - i

/-- The text of a `net.AddrError`. -/
def addrError (addr : List Char) (why : String) : String :=
  if addr = [] then why else "address " ++ String.ofList addr ++ ": " ++ why

/-- The tail of `SplitHostPort`: no bracket may stand outside the host, and the
port starts after the last colon. -/
def splitPort (hostport host : List Char) (j k i : ℕ) : Except String (String × String) :=
  if '[' ∈ hostport.drop j then .error (addrError hostport "unexpected '[' in address")
  else if ']' ∈ hostport.drop k then .error (addrError hostport "unexpected ']' in address")
  else .ok (String.ofList host, String.ofList (hostport.drop (i + 1)))

/-- `SplitHostPort` on characters. -/
def splitHostPortChars (hostport : List Char) : Except String (String × String) :=
  match lastIndex ':' hostport with
  | none => .error (addrError hostport "missing port in address")
  | some i =>
    if hostport.head? = some '[' then
      match hostport.idxOf? ']' with
      | none => .error (addrError hostport "missing ']' in address")
      | some e =>
        if e + 1 = hostport.length then .error (addrError hostport "missing port in address")
        else if e + 1 = i then
          splitPort hostport ((hostport.take e).drop 1) 1 (e + 1) i
        else if hostport[e + 1]? = some ':' then
          .error (addrError hostport "too many colons in address")
        else .error (addrError hostport "missing port in address")
    else if ':' ∈ hostport.take i then .error (addrError hostport "too many colons in address")
    else splitPort hostport (hostport.take i) 0 0 i

/-- `SplitHostPort`: `host:port` or `[host]:port`. -/
def splitHostPort (hostport : String) : Except String (String × String) :=
  splitHostPortChars hostport.toList

/-- `JoinHostPort`: a host with a colon is put into brackets. -/
def joinHostPort (host port : String) : String :=
  if ':' ∈ host.toList then "[" ++ host ++ "]:" ++ port else host ++ ":" ++ port

/-! ## Splitting what was joined -/

theorem idxOf?_append_cons {c : Char} {s : List Char} (t : List Char) (h : c ∉ s) :
    (s ++ c :: t).idxOf? c = some s.length := by
  induction s with
  | nil => simp [List.idxOf?_cons]
  | cons x xs ih =>
    rw [List.mem_cons, not_or] at h
    have hx : (x == c) = false := by
      rw [beq_eq_false_iff_ne]
      exact fun heq => h.1 heq.symm
    rw [List.cons_append, List.idxOf?_cons, hx, ih h.2]
    rfl

theorem lastIndex_append_cons {c : Char} (s : List Char) {t : List Char} (h : c ∉ t) :
    lastIndex c (s ++ c :: t) = some s.length := by
  have hrev : (s ++ c :: t).reverse = t.reverse ++ c :: s.reverse := by simp
  have hmem : c ∉ t.reverse := by simpa using h
  unfold lastIndex
  rw [hrev, idxOf?_append_cons _ hmem]
  simp

/-- The last occurrence splits a text. -/
theorem lastIndex_eq_some {c : Char} {s : List Char} {i : ℕ} (h : lastIndex c s = some i) :
    ∃ front back, s = front ++ c :: back ∧ front.length = i ∧ c ∉ back := by
  have hmem : c ∈ s.reverse := by
    by_contra hnot
    unfold lastIndex at h
    rw [List.idxOf?_eq_none_iff.mpr hnot] at h
    exact absurd h (by simp)
  obtain ⟨as, bs, hrev, hnot⟩ := List.eq_append_cons_of_mem hmem
  have hs : s = bs.reverse ++ c :: as.reverse := by
    rw [← List.reverse_reverse s, hrev]
    simp
  have hback : c ∉ as.reverse := by simpa using hnot
  rw [hs, lastIndex_append_cons _ hback] at h
  exact ⟨bs.reverse, as.reverse, hs, Option.some.inj h, hback⟩

theorem splitPort_ok {hostport host : List Char} {j k i : ℕ} {r : String × String}
    (h : splitPort hostport host j k i = .ok r) :
    '[' ∉ hostport.drop j ∧ ']' ∉ hostport.drop k ∧
      r = (String.ofList host, String.ofList (hostport.drop (i + 1))) := by
  unfold splitPort at h
  by_cases hopen : '[' ∈ hostport.drop j
  · rw [if_pos hopen] at h
    exact absurd h (by simp)
  by_cases hclose : ']' ∈ hostport.drop k
  · rw [if_neg hopen, if_pos hclose] at h
    exact absurd h (by simp)
  rw [if_neg hopen, if_neg hclose] at h
  exact ⟨hopen, hclose, (Except.ok.inj h).symm⟩

theorem splitPort_eq {hostport host : List Char} {j k i : ℕ} (hopen : '[' ∉ hostport.drop j)
    (hclose : ']' ∉ hostport.drop k) :
    splitPort hostport host j k i
      = .ok (String.ofList host, String.ofList (hostport.drop (i + 1))) := by
  unfold splitPort
  rw [if_neg hopen, if_neg hclose]

/-- A port as `SplitHostPort` returns it. -/
def PortText (port : String) : Prop :=
  ':' ∉ port.toList ∧ '[' ∉ port.toList ∧ ']' ∉ port.toList

/-- The port comes from a call of `splitPort` at the last colon. -/
theorem splitHostPort_ok {s : String} {r : String × String} (h : splitHostPort s = .ok r) :
    ∃ front back host j k, s.toList = front ++ ':' :: back ∧ ':' ∉ back ∧ j ≤ front.length + 1 ∧
      k ≤ front.length + 1 ∧ splitPort s.toList host j k front.length = .ok r := by
  unfold splitHostPort splitHostPortChars at h
  cases hlast : lastIndex ':' s.toList with
  | none =>
    rw [hlast] at h
    exact absurd h (by simp)
  | some i =>
    obtain ⟨front, back, hs, hlen, hback⟩ := lastIndex_eq_some hlast
    rw [hlast] at h
    dsimp only at h
    split at h
    · split at h
      · exact absurd h (by simp)
      next e he =>
        split at h
        · exact absurd h (by simp)
        split at h
        next hei =>
          subst hlen
          exact ⟨front, back, _, _, _, hs, hback, by omega, by omega, h⟩
        next =>
          split at h <;> exact absurd h (by simp)
    · split at h
      · exact absurd h (by simp)
      · subst hlen
        exact ⟨front, back, _, _, _, hs, hback, by omega, by omega, h⟩

/-- **No port has a colon or a bracket.** -/
theorem portText_of_splitHostPort {s host port : String}
    (h : splitHostPort s = .ok (host, port)) : PortText port := by
  obtain ⟨front, back, host', j, k, hs, hback, hj, hk, hsplit⟩ := splitHostPort_ok h
  obtain ⟨hopen, hclose, heq⟩ := splitPort_ok hsplit
  have hdrop : s.toList.drop (front.length + 1) = back := by
    rw [hs, ← List.drop_drop, List.drop_left]
    rfl
  have hport : port.toList = back := by
    rw [(Prod.mk.inj heq).2, String.toList_ofList, hdrop]
  have hsub : ∀ n, n ≤ front.length + 1 → ∀ c ∈ back, c ∈ s.toList.drop n := by
    intro n hn c hc
    rw [← hdrop] at hc
    exact (List.drop_subset_drop_left _ hn) hc
  refine ⟨?_, ?_, ?_⟩ <;> rw [hport]
  · exact hback
  · exact fun hc => hopen (hsub j hj _ hc)
  · exact fun hc => hclose (hsub k hk _ hc)

/-- A host without brackets. -/
def HostText (host : String) : Prop := '[' ∉ host.toList ∧ ']' ∉ host.toList

/-- **What was joined is split again.** -/
theorem splitHostPort_joinHostPort {host port : String} (hhost : HostText host)
    (hport : PortText port) : splitHostPort (joinHostPort host port) = .ok (host, port) := by
  obtain ⟨hcolon, hopen, hclose⟩ := hport
  unfold splitHostPort joinHostPort splitHostPortChars
  by_cases hmem : ':' ∈ host.toList
  · have htext : ("[" ++ host ++ "]:" ++ port).toList
        = '[' :: (host.toList ++ ']' :: ':' :: port.toList) := by simp
    -- the host has a colon: it stands in brackets, and the last colon follows them
    have hfront : '[' :: (host.toList ++ ']' :: ':' :: port.toList)
        = ('[' :: (host.toList ++ [']'])) ++ ':' :: port.toList := by simp
    have hlast : lastIndex ':' ('[' :: (host.toList ++ ']' :: ':' :: port.toList))
        = some (host.toList.length + 2) := by
      rw [hfront, lastIndex_append_cons _ hcolon]
      simp
    have hidx : ('[' :: (host.toList ++ ']' :: ':' :: port.toList)).idxOf? ']'
        = some (host.toList.length + 1) := by
      have hmem' : ']' ∉ '[' :: host.toList := by
        rw [List.mem_cons, not_or]
        exact ⟨by decide, hhost.2⟩
      rw [← List.cons_append, idxOf?_append_cons _ hmem']
      rfl
    rw [if_pos hmem, htext, hlast]
    simp only [List.head?_cons, if_true, hidx]
    rw [if_neg (by simp), splitPort_eq]
    · simp
    · simp [hhost.1, hopen]
    · simp [List.drop_append, List.drop_eq_nil_of_le, hclose]
  · have htext : (host ++ ":" ++ port).toList = host.toList ++ ':' :: port.toList := by simp
    have hhead : (host.toList ++ ':' :: port.toList).head? ≠ some '[' := by
      cases hl : host.toList with
      | nil => simp
      | cons x xs =>
        intro heq
        have hx : x = '[' := Option.some.inj heq
        apply hhost.1
        rw [hl, hx]
        exact List.mem_cons_self
    rw [if_neg hmem, htext, lastIndex_append_cons _ hcolon]
    simp only [if_neg hhead, List.take_left]
    rw [if_neg hmem, splitPort_eq]
    · simp [List.drop_append]
    · simp [hhost.1, hopen]
    · simp [hhost.2, hclose]

/-! ## The characters of the text of an address -/

section Characters

variable {P : Char → Prop}

/-- The digits up to base 16; there is one character for all others. -/
theorem forall_digitChar (hdigit : ∀ n < 16, P (Nat.digitChar n)) (hother : P '*') (n : ℕ) :
    P (Nat.digitChar n) := by
  by_cases h : n < 16
  · exact hdigit n h
  · have hstar : Nat.digitChar n = '*' := by
      unfold Nat.digitChar
      simp (disch := omega) only [if_neg]
    rw [hstar]
    exact hother

theorem forall_mem_digits (hdigit : ∀ n, P (Nat.digitChar n)) (base n : ℕ) :
    ∀ c ∈ digits base n, P c := by
  intro c hc
  unfold digits at hc
  split at hc
  · rw [List.mem_singleton.mp hc]
    exact hdigit 0
  · rw [List.mem_reverse, List.mem_map] at hc
    obtain ⟨d, -, rfl⟩ := hc
    exact hdigit d

theorem forall_mem_intersperse {sep : List Char} {texts : List (List Char)}
    (hsep : ∀ c ∈ sep, P c) (htexts : ∀ text ∈ texts, ∀ c ∈ text, P c) :
    ∀ c ∈ (texts.intersperse sep).flatten, P c := by
  induction texts with
  | nil => exact fun c hc => absurd hc List.not_mem_nil
  | cons x xs ih =>
    have hx : ∀ c ∈ x, P c := htexts x List.mem_cons_self
    have hxs := ih fun text ht => htexts text (List.mem_cons_of_mem _ ht)
    cases xs with
    | nil =>
      intro c hc
      rw [List.intersperse_singleton, List.flatten_singleton] at hc
      exact hx c hc
    | cons y ys =>
      intro c hc
      rw [List.intersperse_cons_cons, List.flatten_cons, List.flatten_cons, List.mem_append,
        List.mem_append] at hc
      rcases hc with hc | hc | hc
      · exact hx c hc
      · exact hsep c hc
      · exact hxs c hc

theorem forall_mem_joinGroups (hdigit : ∀ n, P (Nat.digitChar n)) (hcolon : P ':') (gs : List ℕ) :
    ∀ c ∈ joinGroups gs, P c := by
  refine forall_mem_intersperse (fun c hc => ?_) fun text ht => ?_
  · rw [List.mem_singleton.mp hc]
    exact hcolon
  · obtain ⟨g, -, rfl⟩ := List.mem_map.mp ht
    exact forall_mem_digits hdigit 16 g

/-- The characters of the text of an address. -/
theorem forall_mem_ipString (hdigit : ∀ n, P (Nat.digitChar n)) (hcolon : P ':') (hdot : P '.')
    (hnil : ∀ c ∈ ['<', 'n', 'i', 'l', '>'], P c) (hother : P '?') (ip : IP) :
    ∀ c ∈ (ipString ip).toList, P c := by
  unfold ipString
  split
  · exact hnil
  split
  · rw [String.toList_ofList]
    refine forall_mem_intersperse (fun c hc => ?_) fun text ht => ?_
    · rw [List.mem_singleton.mp hc]
      exact hdot
    · obtain ⟨b, -, rfl⟩ := List.mem_map.mp ht
      exact forall_mem_digits hdigit 10 b.toNat
  split
  · dsimp only
    split
    · rw [String.toList_ofList]
      exact forall_mem_joinGroups hdigit hcolon _
    · intro c hc
      rw [String.toList_ofList, List.mem_append, List.mem_append] at hc
      rcases hc with (hc | hc) | hc
      · exact forall_mem_joinGroups hdigit hcolon _ c hc
      · rw [show c = ':' by simpa using hc]
        exact hcolon
      · exact forall_mem_joinGroups hdigit hcolon _ c hc
  · intro c hc
    rw [String.toList_append, List.mem_append] at hc
    rcases hc with hc | hc
    · rw [show c = '?' by simpa using hc]
      exact hother
    · rw [String.toList_ofList] at hc
      obtain ⟨b, -, hb⟩ := List.mem_flatMap.mp hc
      rcases List.mem_cons.mp hb with rfl | hb
      · exact hdigit _
      · rw [List.mem_singleton.mp hb]
        exact hdigit _

end Characters

/-- A character that may stand in a host. -/
def NoBracket (c : Char) : Prop := c ≠ '[' ∧ c ≠ ']'

instance (c : Char) : Decidable (NoBracket c) := inferInstanceAs (Decidable (_ ∧ _))

theorem noBracket_ipString (ip : IP) : ∀ c ∈ (ipString ip).toList, NoBracket c :=
  forall_mem_ipString (forall_digitChar (by decide) (by decide)) (by decide) (by decide)
    (by simp [NoBracket]) (by decide) ip

/-- **The text of an address is a host.** -/
theorem hostText_ipString (ip : IP) : HostText (ipString ip) :=
  ⟨fun h => (noBracket_ipString ip _ h).1 rfl, fun h => (noBracket_ipString ip _ h).2 rfl⟩

end NetAddr
