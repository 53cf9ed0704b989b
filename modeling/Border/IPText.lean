/-
# Reading back the text of an address

`IP.String` writes an IPv4 address as four decimal numbers, and any other 16-byte address as
groups of hexadecimal digits with its first longest run of zero groups shortened to two
colons.  `ParseIP` reads both, by the dots or colons between the numbers.

* `scanDigits_digits` : a number is read back, and the text after it is left, when that does
  not start with a digit;
* `parseGroups_joinGroups` and `parseGroups_ellipsis` : groups are read back, up to the end of
  the text or up to the two colons;
* `parseIP_ipString` : so `ParseIP` gives the 16-byte form of every address that was written.
-/
import Border.NetAddr

namespace NetAddr

/-! ## Numbers -/

/-- The text does not start with a digit. -/
def Stops (digit : Char → Option ℕ) (s : List Char) : Prop := ∀ c ∈ s.head?, digit c = none

theorem stops_nil (digit : Char → Option ℕ) : Stops digit [] := by
  intro c hc
  cases hc

theorem stops_cons {digit : Char → Option ℕ} {c : Char} (h : digit c = none) (s : List Char) :
    Stops digit (c :: s) := by
  intro d hd
  cases hd
  exact h

/-- The scan ends where the text does not go on with a digit. -/
theorem scanDigits_stops {base : ℕ} {digit : Char → Option ℕ} {s : List Char} (n c : ℕ)
    (h : Stops digit s) : scanDigits base digit n c s = (n, c, s) := by
  cases s with
  | nil => rfl
  | cons x xs =>
    have hx : digit x = none := h x rfl
    rw [scanDigits, hx]

section Digits

variable {base : ℕ} {digit : Char → Option ℕ}

/-- Digits are read from the first one on. -/
theorem scanDigits_map (hdigit : ∀ d < base, digit (Nat.digitChar d) = some d) (rest : List Char)
    {ds : List ℕ} (hds : ∀ d ∈ ds, d < base) (n c : ℕ) :
    scanDigits base digit n c (ds.map Nat.digitChar ++ rest)
      = scanDigits base digit (ds.foldl (fun n d => n * base + d) n) (c + ds.length) rest := by
  induction ds generalizing n c with
  | nil => rfl
  | cons d ds ih =>
    have hd : digit (Nat.digitChar d) = some d := hdigit d (hds d List.mem_cons_self)
    rw [List.map_cons, List.cons_append, scanDigits, hd]
    show scanDigits base digit (n * base + d) (c + 1) (ds.map Nat.digitChar ++ rest) = _
    rw [ih (fun e he => hds e (List.mem_cons_of_mem d he)), List.foldl_cons, List.length_cons]
    congr 1
    omega

/-- The digits of a number that is not zero. -/
theorem digits_of_pos {n : ℕ} (hn : n ≠ 0) :
    digits base n = (Nat.digits base n).reverse.map Nat.digitChar := by
  have hne : Nat.digits base n ≠ [] := Nat.digits_ne_nil_iff_ne_zero.mpr hn
  unfold digits
  split
  next h => exact absurd h hne
  next ds _ => rw [List.map_reverse]

theorem digits_zero : digits base 0 = ['0'] := by
  simp [digits]

theorem length_digits_pos (n : ℕ) : 0 < (digits base n).length := by
  by_cases hn : n = 0
  · rw [hn, digits_zero]
    exact Nat.one_pos
  · rw [digits_of_pos hn, List.length_map, List.length_reverse]
    exact List.length_pos_of_ne_nil (Nat.digits_ne_nil_iff_ne_zero.mpr hn)

/-- Digits add up to the number they were taken from. -/
theorem foldl_digits (n : ℕ) :
    (Nat.digits base n).reverse.foldl (fun n d => n * base + d) 0 = n := by
  rw [List.foldl_reverse]
  have h : ∀ ds : List ℕ, ds.foldr (fun d n => n * base + d) 0 = Nat.ofDigits base ds := by
    intro ds
    induction ds with
    | nil => rfl
    | cons d ds ih =>
      rw [List.foldr_cons, ih, Nat.ofDigits_cons]
      ring
  rw [h, Nat.ofDigits_digits]

/-- **A number is read back**, and what follows it is left. -/
theorem scanDigits_digits (hbase : 1 < base)
    (hdigit : ∀ d < base, digit (Nat.digitChar d) = some d) (n : ℕ) {rest : List Char}
    (hrest : Stops digit rest) :
    scanDigits base digit 0 0 (digits base n ++ rest) = (n, (digits base n).length, rest) := by
  by_cases hn : n = 0
  · have hzero : digit '0' = some 0 := hdigit 0 (by omega)
    have hscan : scanDigits base digit 0 0 ('0' :: rest)
        = scanDigits base digit (0 * base + 0) (0 + 1) rest := by
      rw [scanDigits, hzero]
    rw [hn, digits_zero, List.cons_append, List.nil_append, hscan, scanDigits_stops _ _ hrest,
      Nat.zero_mul]
    rfl
  · have hlt : ∀ d ∈ (Nat.digits base n).reverse, d < base := by
      intro d hd
      exact Nat.digits_lt_base hbase (List.mem_reverse.mp hd)
    rw [digits_of_pos hn, scanDigits_map hdigit rest hlt, foldl_digits, scanDigits_stops _ _ hrest,
      List.length_map, Nat.zero_add]

/-- Only the zero is written with a zero in front. -/
theorem head_digits (hbase : 1 < base ∧ base ≤ 16) {n : ℕ} (h : 1 < (digits base n).length) :
    (digits base n).head? ≠ some '0' := by
  by_cases hn : n = 0
  · rw [hn, digits_zero] at h
    exact absurd h (by decide)
  · have hne : Nat.digits base n ≠ [] := Nat.digits_ne_nil_iff_ne_zero.mpr hn
    have hlast : (Nat.digits base n).getLast hne ≠ 0 := Nat.getLast_digit_ne_zero base hn
    have hlt : (Nat.digits base n).getLast hne < base :=
      Nat.digits_lt_base hbase.1 (List.getLast_mem hne)
    rw [digits_of_pos hn, List.head?_map, List.head?_reverse, List.getLast?_eq_some_getLast hne]
    intro heq
    have hchar : Nat.digitChar ((Nat.digits base n).getLast hne) = '0' := Option.some.inj heq
    generalize (Nat.digits base n).getLast hne = d at hlast hlt hchar
    have hd : d < 16 := by omega
    interval_cases d <;> first | exact hlast rfl | exact absurd hchar (by decide)

end Digits

theorem decDigit_digitChar {d : ℕ} (h : d < 10) : decDigit (Nat.digitChar d) = some d := by
  interval_cases d <;> rfl

theorem hexDigit_digitChar {d : ℕ} (h : d < 16) : hexDigit (Nat.digitChar d) = some d := by
  interval_cases d <;> rfl

theorem dtoi_digits {n : ℕ} (hn : n < 0xFFFFFF) {rest : List Char} (hrest : Stops decDigit rest) :
    dtoi (digits 10 n ++ rest) = some (n, (digits 10 n).length, rest) := by
  obtain ⟨k, hk⟩ := Nat.exists_eq_succ_of_ne_zero (@length_digits_pos 10 n).ne'
  rw [dtoi, scanDigits_digits (by decide) (fun d hd => decDigit_digitChar hd) n hrest, hk]
  exact if_neg (by simpa using hn)

theorem xtoi_digits {n : ℕ} (hn : n < 0xFFFFFF) {rest : List Char} (hrest : Stops hexDigit rest) :
    xtoi (digits 16 n ++ rest) = some (n, (digits 16 n).length, rest) := by
  obtain ⟨k, hk⟩ := Nat.exists_eq_succ_of_ne_zero (@length_digits_pos 16 n).ne'
  rw [xtoi, scanDigits_digits (by decide) (fun d hd => hexDigit_digitChar hd) n hrest, hk]
  exact if_neg (by simpa using hn)

/-! ## Four octets -/

/-- An octet is read back. -/
theorem parseOctet_digits (b : UInt8) {rest : List Char} (hrest : Stops decDigit rest) :
    parseOctet (digits 10 b.toNat ++ rest) = some (b, rest) := by
  have hb : b.toNat < 256 := b.toNat_lt
  have hpos : 0 < (digits 10 b.toNat).length := length_digits_pos b.toNat
  have hhead : (digits 10 b.toNat ++ rest).head? = (digits 10 b.toNat).head? :=
    List.head?_append_of_ne_nil _ (List.ne_nil_of_length_pos hpos)
  have hzero : ¬ ((digits 10 b.toNat).length > 1 ∧ (digits 10 b.toNat ++ rest).head? = some '0') := by
    rintro ⟨hlong, hz⟩
    rw [hhead] at hz
    exact head_digits (by decide) hlong hz
  rw [parseOctet, dtoi_digits (by omega) hrest]
  show (if b.toNat > 0xFF then none else
    if (digits 10 b.toNat).length > 1 ∧ (digits 10 b.toNat ++ rest).head? = some '0' then none
    else some (UInt8.ofNat b.toNat, rest)) = some (b, rest)
  rw [if_neg (by omega), if_neg hzero, UInt8.ofNat_toNat]

theorem stops_dot (s : List Char) : Stops decDigit ('.' :: s) := stops_cons rfl s

/-- Octets behind a dot each are read back. -/
theorem parseOctets_digits (bs : List UInt8) :
    parseOctets bs.length (bs.flatMap fun b => '.' :: digits 10 b.toNat) = some bs := by
  induction bs with
  | nil => rfl
  | cons b bs ih =>
    have hstop : Stops decDigit (bs.flatMap fun b => '.' :: digits 10 b.toNat) := by
      cases bs with
      | nil => exact stops_nil _
      | cons c cs => exact stops_dot _
    rw [List.length_cons, List.flatMap_cons, List.cons_append, parseOctets,
      parseOctet_digits b hstop]
    show (parseOctets bs.length _).map (b :: ·) = some (b :: bs)
    rw [ih]
    rfl

/-- The text of four octets. -/
def dottedText (p4 : List UInt8) : List Char :=
  (p4.map fun b => digits 10 b.toNat).intersperse ['.'] |>.flatten

theorem dottedText_cons (b : UInt8) (bs : List UInt8) :
    dottedText (b :: bs)
      = digits 10 b.toNat ++ bs.flatMap fun b => '.' :: digits 10 b.toNat := by
  induction bs generalizing b with
  | nil => simp [dottedText]
  | cons c cs ih =>
    have h : dottedText (b :: c :: cs) = digits 10 b.toNat ++ '.' :: dottedText (c :: cs) := by
      simp [dottedText]
    rw [h, ih, List.flatMap_cons, List.cons_append]

/-- **An IPv4 address is read back** in its 16-byte form. -/
theorem parseIPv4_dottedText {p4 : List UInt8} (h : p4.length = 4) :
    parseIPv4 (dottedText p4) = some (v4InV6Prefix ++ p4) := by
  obtain ⟨b, bs, rfl⟩ : ∃ b bs, p4 = b :: bs := List.exists_cons_of_length_eq_add_one h
  have hlen : bs.length = 3 := by simpa using h
  have hstop : Stops decDigit (bs.flatMap fun b => '.' :: digits 10 b.toNat) := by
    cases bs with
    | nil => exact stops_nil _
    | cons c cs => exact stops_dot _
  have hoctets := parseOctets_digits bs
  rw [hlen] at hoctets
  rw [dottedText_cons, parseIPv4, parseOctet_digits b hstop]
  show (parseOctets 3 _).map _ = _
  rw [hoctets]
  rfl

/-! ## Groups -/

/-- The bytes of groups. -/
def ungroups (gs : List ℕ) : List UInt8 :=
  gs.flatMap fun g => [UInt8.ofNat (g / 256), UInt8.ofNat g]

theorem length_ungroups (gs : List ℕ) : (ungroups gs).length = 2 * gs.length := by
  induction gs with
  | nil => rfl
  | cons g gs ih =>
    have hcons : ungroups (g :: gs) = UInt8.ofNat (g / 256) :: UInt8.ofNat g :: ungroups gs := rfl
    rw [hcons, List.length_cons, List.length_cons, ih, List.length_cons]
    omega

theorem ungroups_append (gs hs : List ℕ) : ungroups (gs ++ hs) = ungroups gs ++ ungroups hs :=
  List.flatMap_append

theorem ungroups_replicate_zero (n : ℕ) :
    ungroups (List.replicate n 0) = List.replicate (2 * n) 0 := by
  induction n with
  | zero => rfl
  | succ n ih =>
    have hcons : ungroups (0 :: List.replicate n 0) = 0 :: 0 :: ungroups (List.replicate n 0) := rfl
    rw [List.replicate_succ, hcons, ih, Nat.mul_succ, List.replicate_succ, List.replicate_succ]

/-- The groups of an even number of bytes. -/
theorem groups_spec : ∀ (n : ℕ) {bytes : List UInt8}, bytes.length = 2 * n →
    (groups bytes).length = n ∧ (∀ g ∈ groups bytes, g < 65536) ∧ ungroups (groups bytes) = bytes
  | 0, bytes, h => by
    have hnil : bytes = [] := List.length_eq_zero_iff.mp (by omega)
    subst hnil
    exact ⟨rfl, by simp [groups], rfl⟩
  | n + 1, bytes, h => by
    obtain ⟨a, rest, rfl⟩ : ∃ a rest, bytes = a :: rest :=
      List.exists_cons_of_length_pos (by omega)
    obtain ⟨b, rest, rfl⟩ : ∃ b rest', rest = b :: rest' :=
      List.exists_cons_of_length_pos (by rw [List.length_cons] at h; omega)
    have hrest : rest.length = 2 * n := by
      rw [List.length_cons, List.length_cons] at h
      omega
    obtain ⟨hlen, hlt, hback⟩ := groups_spec n hrest
    have ha : a.toNat < 256 := a.toNat_lt
    have hb : b.toNat < 256 := b.toNat_lt
    have hhigh : (a.toNat * 256 + b.toNat) / 256 = a.toNat := by omega
    have hlow : UInt8.ofNat (a.toNat * 256 + b.toNat) = b := by
      apply UInt8.toNat_inj.mp
      rw [UInt8.toNat_ofNat']
      omega
    refine ⟨by rw [groups, List.length_cons, hlen], ?_, ?_⟩
    · intro g hg
      rcases List.mem_cons.mp hg with rfl | hg
      · omega
      · exact hlt g hg
    · show UInt8.ofNat ((a.toNat * 256 + b.toNat) / 256)
        :: UInt8.ofNat (a.toNat * 256 + b.toNat) :: ungroups (groups rest) = a :: b :: rest
      rw [hhigh, hlow, hback, UInt8.ofNat_toNat]

theorem joinGroups_cons (g g' : ℕ) (gs : List ℕ) :
    joinGroups (g :: g' :: gs) = digits 16 g ++ ':' :: joinGroups (g' :: gs) := by
  simp [joinGroups]

theorem joinGroups_singleton (g : ℕ) : joinGroups [g] = digits 16 g := by
  simp [joinGroups]

/-- Digits start with a digit, and not with a colon. -/
theorem digits_head (n : ℕ) : ∃ c t, digits 16 n = c :: t ∧ c ≠ ':' ∧ c ≠ '.' := by
  obtain ⟨c, t, h⟩ : ∃ c t, digits 16 n = c :: t :=
    List.exists_cons_of_length_pos (length_digits_pos n)
  have hscan := scanDigits_digits (by decide) (fun d hd => hexDigit_digitChar hd) n
    (stops_nil hexDigit)
  rw [List.append_nil, h, scanDigits] at hscan
  refine ⟨c, t, h, ?_, ?_⟩
  · rintro rfl
    exact absurd (congrArg (·.2.1) hscan) (by simp [hexDigit])
  · rintro rfl
    exact absurd (congrArg (·.2.1) hscan) (by simp [hexDigit])

theorem joinGroups_head (g : ℕ) (gs : List ℕ) :
    ∃ c t, joinGroups (g :: gs) = c :: t ∧ c ≠ ':' ∧ c ≠ '.' := by
  obtain ⟨c, t, h, hc⟩ := digits_head g
  cases gs with
  | nil => exact ⟨c, t, by rw [joinGroups_singleton, h], hc⟩
  | cons g' gs => exact ⟨c, t ++ ':' :: joinGroups (g' :: gs), by rw [joinGroups_cons, h]; rfl, hc⟩

theorem stops_colon (s : List Char) : Stops hexDigit (':' :: s) := stops_cons rfl s

section Groups

variable {g : ℕ} (hg : g < 65536) (k : ℕ) (bytes : List UInt8) (ellipsis : Option ℕ)

include hg

/-- The last group of a text. -/
theorem parseGroups_last : parseGroups (k + 1) bytes ellipsis (digits 16 g)
    = expandEllipsis (bytes ++ ungroups [g]) ellipsis := by
  have hx := xtoi_digits (n := g) (by omega) (stops_nil hexDigit)
  rw [List.append_nil] at hx
  rw [parseGroups, hx]
  exact if_neg (by omega)

/-- A group before another one. -/
theorem parseGroups_next {c : Char} (hc : c ≠ ':') (t : List Char) :
    parseGroups (k + 1) bytes ellipsis (digits 16 g ++ ':' :: c :: t)
      = parseGroups k (bytes ++ ungroups [g]) ellipsis (c :: t) := by
  rw [parseGroups, xtoi_digits (by omega) (stops_colon _)]
  show (if g > 0xFFFF then none else _) = _
  rw [if_neg (by omega)]
  split
  all_goals simp_all
  rfl

/-- The last group before an ellipsis. -/
theorem parseGroups_colons (rest : List Char) :
    parseGroups (k + 1) bytes none (digits 16 g ++ ':' :: ':' :: rest)
      = if rest = [] then
          expandEllipsis (bytes ++ ungroups [g]) (some (bytes ++ ungroups [g]).length)
        else parseGroups k (bytes ++ ungroups [g]) (some (bytes ++ ungroups [g]).length) rest := by
  rw [parseGroups, xtoi_digits (by omega) (stops_colon _)]
  exact if_neg (by omega)

end Groups

/-- **Groups are read one after the other**, up to the last one. -/
theorem parseGroups_front (tail : List Char) {gs : List ℕ} (hgs : ∀ g ∈ gs, g < 65536) (g : ℕ)
    (k : ℕ) (bytes : List UInt8) (ellipsis : Option ℕ) :
    parseGroups (gs.length + (k + 1)) bytes ellipsis (joinGroups (gs ++ [g]) ++ tail)
      = parseGroups (k + 1) (bytes ++ ungroups gs) ellipsis (digits 16 g ++ tail) := by
  induction gs generalizing bytes with
  | nil =>
    have hnil : ungroups [] = [] := rfl
    rw [List.nil_append, joinGroups_singleton, hnil, List.append_nil, List.length_nil, Nat.zero_add]
  | cons g₀ gs ih =>
    obtain ⟨g₁, gs', hne⟩ : ∃ g₁ gs', gs ++ [g] = g₁ :: gs' :=
      List.exists_cons_of_ne_nil (by simp)
    obtain ⟨c, t, hjoin, hc, -⟩ := joinGroups_head g₁ gs'
    have hstep : joinGroups (g₀ :: gs ++ [g]) ++ tail = digits 16 g₀ ++ ':' :: c :: (t ++ tail) := by
      rw [List.cons_append, hne, joinGroups_cons, hjoin, List.append_assoc]
      rfl
    have htail : c :: (t ++ tail) = joinGroups (gs ++ [g]) ++ tail := by
      rw [hne, hjoin]
      rfl
    have hbytes : bytes ++ ungroups [g₀] ++ ungroups gs = bytes ++ ungroups (g₀ :: gs) := by
      rw [List.append_assoc, ← ungroups_append, List.singleton_append]
    have hlen : (g₀ :: gs).length + (k + 1) = gs.length + (k + 1) + 1 := by
      rw [List.length_cons]
      omega
    rw [hstep, hlen, parseGroups_next (hgs g₀ List.mem_cons_self) _ _ _ hc, htail,
      ih (fun g' hg' => hgs g' (List.mem_cons_of_mem g₀ hg')), hbytes]

section Lists

variable {gs : List ℕ} (hgs : ∀ g ∈ gs, g < 65536) (hne : gs ≠ []) {k : ℕ} (bytes : List UInt8)

include hgs hne

/-- Groups that are not empty have a last one. -/
theorem exists_last_group :
    ∃ front g, gs = front ++ [g] ∧ (∀ g' ∈ front, g' < 65536) ∧ g < 65536 := by
  have h := List.dropLast_append_getLast hne
  refine ⟨gs.dropLast, gs.getLast hne, h.symm, ?_, hgs _ (List.getLast_mem hne)⟩
  intro g' hg'
  exact hgs g' (List.dropLast_subset gs hg')

/-- **Groups are read back** when they are the end of the text. -/
theorem parseGroups_joinGroups (hk : gs.length ≤ k) (ellipsis : Option ℕ) :
    parseGroups k bytes ellipsis (joinGroups gs)
      = expandEllipsis (bytes ++ ungroups gs) ellipsis := by
  obtain ⟨front, g, rfl, hfront, hg⟩ := exists_last_group hgs hne
  rw [List.length_append, List.length_singleton] at hk
  obtain ⟨m, rfl⟩ : ∃ m, k = front.length + (m + 1) := ⟨k - front.length - 1, by omega⟩
  have h := parseGroups_front [] hfront g m bytes ellipsis
  rw [List.append_nil, List.append_nil] at h
  rw [h, parseGroups_last hg, ungroups_append, List.append_assoc]

/-- **Groups before an ellipsis are read back.** -/
theorem parseGroups_ellipsis (hk : gs.length ≤ k) (rest : List Char) :
    parseGroups k bytes none (joinGroups gs ++ ':' :: ':' :: rest)
      = if rest = [] then
          expandEllipsis (bytes ++ ungroups gs) (some (bytes ++ ungroups gs).length)
        else parseGroups (k - gs.length) (bytes ++ ungroups gs)
          (some (bytes ++ ungroups gs).length) rest := by
  obtain ⟨front, g, rfl, hfront, hg⟩ := exists_last_group hgs hne
  rw [List.length_append, List.length_singleton] at hk
  obtain ⟨m, rfl⟩ : ∃ m, k = front.length + (m + 1) := ⟨k - front.length - 1, by omega⟩
  have hm : front.length + (m + 1) - (front ++ [g]).length = m := by
    rw [List.length_append, List.length_singleton]
    omega
  rw [parseGroups_front _ hfront, parseGroups_colons hg, hm, ungroups_append, List.append_assoc]

end Lists

/-! ## Runs of zero groups -/

theorem zeroRun_spec (gs : List ℕ) :
    gs = List.replicate (zeroRun gs) 0 ++ gs.drop (zeroRun gs) := by
  induction gs with
  | nil => rfl
  | cons g gs ih =>
    cases g with
    | zero =>
      have hrun : zeroRun (0 :: gs) = zeroRun gs + 1 := rfl
      rw [hrun, List.replicate_succ, List.cons_append, List.drop_succ_cons, ← ih]
    | succ g => rfl

/-- The position and the length of a run of zero groups. -/
def IsZeroRun (gs : List ℕ) (run : ℕ × ℕ) : Prop :=
  gs.drop run.1 = List.replicate run.2 0 ++ gs.drop (run.1 + run.2)

/-- The run that the loop returns is one. -/
theorem longestZeroRun_spec {gs₀ : List ℕ} (gs : List ℕ) (i : ℕ) {best : ℕ × ℕ}
    (hgs : gs₀.drop i = gs) (hbest : IsZeroRun gs₀ best) :
    IsZeroRun gs₀ (longestZeroRun gs i best) := by
  induction gs generalizing i best with
  | nil => exact hbest
  | cons g gs ih =>
    have htail : gs₀.drop (i + 1) = gs := by
      rw [← List.drop_drop, hgs]
      rfl
    have hrun : IsZeroRun gs₀ (i, zeroRun (g :: gs)) := by
      show gs₀.drop i = _ ++ gs₀.drop (i + zeroRun (g :: gs))
      rw [← List.drop_drop, hgs]
      exact zeroRun_spec (g :: gs)
    unfold longestZeroRun
    apply ih (i + 1) htail
    split
    · exact hrun
    · exact hbest

/-- A run that is not empty splits the groups in three. -/
theorem IsZeroRun.split {gs : List ℕ} {e r : ℕ} (h : IsZeroRun gs (e, r)) (hr : 0 < r) :
    gs = gs.take e ++ List.replicate r 0 ++ gs.drop (e + r) ∧ e + r ≤ gs.length := by
  have hdrop : gs.drop e = List.replicate r 0 ++ gs.drop (e + r) := h
  have hlen := congrArg List.length hdrop
  rw [List.length_append, List.length_replicate, List.length_drop, List.length_drop] at hlen
  refine ⟨?_, by omega⟩
  rw [List.append_assoc, ← hdrop, List.take_append_drop]

/-! ## The whole text -/

/-- The first dot or colon is that behind the first number. -/
theorem find?_digits {base n : ℕ} (hbase : 1 < base ∧ base ≤ 16) {sep : Char}
    (hsep : sep = '.' ∨ sep = ':') (rest : List Char) :
    (digits base n ++ sep :: rest).find? (fun c => c = '.' ∨ c = ':') = some sep := by
  have hnone : (digits base n).find? (fun c => decide (c = '.' ∨ c = ':')) = none := by
    rw [List.find?_eq_none]
    intro c hc
    by_cases hn : n = 0
    · rw [hn, digits_zero, List.mem_singleton] at hc
      subst hc
      decide
    · rw [digits_of_pos hn, List.mem_map] at hc
      obtain ⟨d, hd, rfl⟩ := hc
      have hlt : d < base := Nat.digits_lt_base hbase.1 (List.mem_reverse.mp hd)
      have hd16 : d < 16 := by omega
      interval_cases d <;> decide
  rw [List.find?_append, hnone, Option.none_or, List.find?_cons_of_pos (by simpa using hsep)]

/-- The text of groups with the run `(e, r)` shortened. -/
def shortened (gs : List ℕ) (e r : ℕ) : List Char :=
  joinGroups (gs.take e) ++ ':' :: ':' :: joinGroups (gs.drop (e + r))

theorem parseIPv6_of_head {c : Char} (hc : c ≠ ':') (t : List Char) :
    parseIPv6 (c :: t) = parseGroups 8 [] none (c :: t) := by
  unfold parseIPv6
  split
  next heq => exact absurd (List.cons.inj heq).1 hc
  next heq => exact absurd (List.cons.inj heq).1 hc
  next => rfl

theorem parseIPv6_colons {c : Char} (t : List Char) :
    parseIPv6 (':' :: ':' :: c :: t) = parseGroups 8 [] (some 0) (c :: t) := rfl

/-- Bytes with an ellipsis for `2 * r` zeros are filled up again. -/
theorem expandEllipsis_ungroups {front back : List ℕ} {r : ℕ} (hr : 0 < r)
    (hlen : front.length + r + back.length = 8) :
    expandEllipsis (ungroups front ++ ungroups back) (some (ungroups front).length)
      = some (ungroups (front ++ List.replicate r 0 ++ back)) := by
  have hlength : (ungroups front ++ ungroups back).length = 16 - 2 * r := by
    rw [List.length_append, length_ungroups, length_ungroups]
    omega
  have hgap : 16 - (16 - 2 * r) = 2 * r := by omega
  unfold expandEllipsis
  rw [hlength]
  show (if 16 - 2 * r = 16 then none else _) = _
  rw [if_neg (by omega), List.take_left', List.drop_left', hgap, ungroups_append, ungroups_append,
    ungroups_replicate_zero]
  · rfl
  · rfl

section Address

variable {gs : List ℕ} (hgs : ∀ g ∈ gs, g < 65536) (hlen : gs.length = 8)

include hgs hlen

/-- **Eight groups are read back.** -/
theorem parseIPv6_joinGroups : parseIPv6 (joinGroups gs) = some (ungroups gs) := by
  obtain ⟨g, gs', rfl⟩ : ∃ g gs', gs = g :: gs' := List.exists_cons_of_length_pos (by omega)
  obtain ⟨c, t, hjoin, hc, -⟩ := joinGroups_head g gs'
  have hread := parseGroups_joinGroups hgs (by simp) [] hlen.le none
  rw [hjoin] at hread ⊢
  rw [parseIPv6_of_head hc, hread, List.nil_append]
  exact if_pos (by rw [length_ungroups, hlen])

/-- **Eight groups with a run of zeros shortened are read back.** -/
theorem parseIPv6_shortened {e r : ℕ} (hrun : IsZeroRun gs (e, r)) (hr : 0 < r) :
    parseIPv6 (shortened gs e r) = some (ungroups gs) := by
  obtain ⟨hsplit, hle⟩ := hrun.split hr
  have hfront : ∀ g ∈ gs.take e, g < 65536 := fun g hg => hgs g (List.mem_of_mem_take hg)
  have hback : ∀ g ∈ gs.drop (e + r), g < 65536 := fun g hg => hgs g (List.mem_of_mem_drop hg)
  have hlengths : (gs.take e).length + r + (gs.drop (e + r)).length = 8 := by
    rw [List.length_take, List.length_drop]
    omega
  have hexpand := expandEllipsis_ungroups hr hlengths
  rw [← hsplit] at hexpand
  unfold shortened
  generalize gs.take e = front at *
  generalize gs.drop (e + r) = back at *
  cases front with
  | nil =>
    cases back with
    | nil => exact hexpand
    | cons g back =>
      obtain ⟨c, t, hjoin, -, -⟩ := joinGroups_head g back
      have hread := parseGroups_joinGroups hback (by simp) [] (k := 8) (by omega) (some 0)
      show parseIPv6 (':' :: ':' :: joinGroups (g :: back)) = _
      rw [hjoin] at hread ⊢
      rw [parseIPv6_colons, hread]
      exact hexpand
  | cons g front =>
    obtain ⟨c, t, hjoin, hc, -⟩ := joinGroups_head g front
    have hread := parseGroups_ellipsis hfront (by simp) [] (k := 8) (by omega) (joinGroups back)
    rw [hjoin, List.cons_append] at hread ⊢
    rw [parseIPv6_of_head hc, hread]
    cases back with
    | nil =>
      have hnil : ungroups [] = [] := rfl
      rw [hnil, List.append_nil] at hexpand
      exact hexpand
    | cons g' back =>
      obtain ⟨c', t', hjoin', -, -⟩ := joinGroups_head g' back
      have hne : joinGroups (g' :: back) ≠ [] := by simp [hjoin']
      rw [if_neg hne, parseGroups_joinGroups hback (by simp) _ (by omega)]
      exact hexpand

end Address

/-- The first dot or colon decides how a text is read. -/
theorem parseIP_colon {s : List Char} (h : s.find? (fun c => c = '.' ∨ c = ':') = some ':') :
    parseIP (String.ofList s) = parseIPv6 s := by
  unfold parseIP
  rw [String.toList_ofList, h]
  rfl

theorem parseIP_dot {s : List Char} (h : s.find? (fun c => c = '.' ∨ c = ':') = some '.') :
    parseIP (String.ofList s) = parseIPv4 s := by
  unfold parseIP
  rw [String.toList_ofList, h]
  rfl

theorem parseIP_plain {s : List Char} (h : ∀ c ∈ s, c ≠ '.' ∧ c ≠ ':') :
    parseIP (String.ofList s) = none := by
  have hnone : s.find? (fun c => decide (c = '.' ∨ c = ':')) = none := by
    rw [List.find?_eq_none]
    intro c hc
    obtain ⟨hdot, hcolon⟩ := h c hc
    simp [hdot, hcolon]
  unfold parseIP
  rw [String.toList_ofList, hnone]

/-- The first dot or colon of groups, with an ellipsis or without, is a colon. -/
theorem find?_joinGroups {gs : List ℕ} (tail : List Char) (h : 2 ≤ gs.length ∨ tail.head? = some ':') :
    (joinGroups gs ++ tail).find? (fun c => c = '.' ∨ c = ':') = some ':' := by
  cases gs with
  | nil =>
    rcases h with h | h
    · exact absurd h (by decide)
    · obtain ⟨t, rfl⟩ : ∃ t, tail = ':' :: t := by
        cases tail with
        | nil => cases h
        | cons c t => exact ⟨t, by rw [Option.some.inj h]⟩
      rfl
  | cons g gs =>
    cases gs with
    | nil =>
      rcases h with h | h
      · exact absurd h (by simp)
      · obtain ⟨t, rfl⟩ : ∃ t, tail = ':' :: t := by
          cases tail with
          | nil => cases h
          | cons c t => exact ⟨t, by rw [Option.some.inj h]⟩
        rw [joinGroups_singleton]
        exact find?_digits (by decide) (Or.inr rfl) t
    | cons g' gs =>
      rw [joinGroups_cons, List.append_assoc]
      exact find?_digits (by decide) (Or.inr rfl) _

theorem parseIP_dottedText {p4 : List UInt8} (h : p4.length = 4) :
    parseIP (String.ofList (dottedText p4)) = some (v4InV6Prefix ++ p4) := by
  rw [parseIP_dot, parseIPv4_dottedText h]
  obtain ⟨a, b, bs, rfl⟩ : ∃ a b bs, p4 = a :: b :: bs := by
    obtain ⟨a, t, rfl⟩ := List.exists_cons_of_length_eq_add_one h
    obtain ⟨b, bs, rfl⟩ : ∃ b bs, t = b :: bs :=
      List.exists_cons_of_length_pos (by rw [List.length_cons] at h; omega)
    exact ⟨a, b, bs, rfl⟩
  rw [dottedText_cons, List.flatMap_cons, List.cons_append]
  exact find?_digits (by decide) (Or.inl rfl) _

/-- The text of a 16-byte address that is not an IPv4 address. -/
theorem ipString_groups {ip : IP} (h4 : to4 ip = none) (hlen : ip.length = 16) :
    ∃ e r, IsZeroRun (groups ip) (e, r) ∧
      ipString ip = if r ≤ 1 then String.ofList (joinGroups (groups ip))
        else String.ofList (shortened (groups ip) e r) := by
  refine ⟨(longestZeroRun (groups ip) 0 (0, 0)).1, (longestZeroRun (groups ip) 0 (0, 0)).2,
    longestZeroRun_spec (groups ip) 0 rfl rfl, ?_⟩
  unfold ipString shortened
  rw [if_neg (by omega), h4]
  show (if ip.length = 16 then _ else _) = _
  rw [if_pos hlen]
  simp only [List.append_assoc, List.cons_append, List.nil_append]

theorem digitChar_plain {n : ℕ} (hn : n < 16) : Nat.digitChar n ≠ '.' ∧ Nat.digitChar n ≠ ':' := by
  interval_cases n <;> decide

/-- The text of bytes that are no address. -/
theorem parseIP_malformed {ip : IP} (h4 : ip.length ≠ 4) (h16 : ip.length ≠ 16) :
    parseIP (ipString ip) = none := by
  have hto4 : to4 ip = none := by
    unfold to4
    rw [if_neg h4, if_neg (fun h => h16 h.1)]
  by_cases hnil : ip.length = 0
  · have htext : ipString ip = String.ofList ['<', 'n', 'i', 'l', '>'] := if_pos hnil
    rw [htext]
    apply parseIP_plain
    intro c hc
    fin_cases hc <;> decide
  · have htext : ipString ip = String.ofList ('?' :: ip.flatMap fun b =>
        [Nat.digitChar (b.toNat / 16), Nat.digitChar (b.toNat % 16)]) := by
      unfold ipString
      rw [if_neg hnil, hto4]
      dsimp only
      rw [if_neg h16, ← String.toList_inj, String.toList_append]
      simp only [String.toList_ofList]
      rfl
    rw [htext]
    apply parseIP_plain
    intro c hc
    rcases List.mem_cons.mp hc with rfl | hc
    · decide
    · obtain ⟨b, -, hb⟩ := List.mem_flatMap.mp hc
      have hlt : b.toNat < 256 := b.toNat_lt
      rcases List.mem_cons.mp hb with rfl | hb
      · exact digitChar_plain (by omega)
      · rw [List.mem_singleton] at hb
        rw [hb]
        exact digitChar_plain (by omega)

/-- **`ParseIP` reads back what `IP.String` writes**: the 16-byte form of the address, and
nothing for bytes that are no address. -/
theorem parseIP_ipString (ip : IP) : parseIP (ipString ip) = to16 ip := by
  by_cases h4 : ip.length = 4
  · have hto4 : to4 ip = some ip := if_pos h4
    have htext : ipString ip = String.ofList (dottedText ip) := by
      unfold ipString
      rw [if_neg (by omega), hto4]
      rfl
    rw [htext, parseIP_dottedText h4]
    exact (if_pos h4).symm
  · by_cases h16 : ip.length = 16
    · have hto16 : to16 ip = some ip := by
        unfold to16
        rw [if_neg h4, if_pos h16]
      rw [hto16]
      by_cases hv4 : ip.take 12 = v4InV6Prefix
      · have hto4 : to4 ip = some (ip.drop 12) := by
          unfold to4
          rw [if_neg h4, if_pos ⟨h16, hv4⟩]
        have htext : ipString ip = String.ofList (dottedText (ip.drop 12)) := by
          unfold ipString
          rw [if_neg (by omega), hto4]
          rfl
        rw [htext, parseIP_dottedText (by rw [List.length_drop]; omega), ← hv4,
          List.take_append_drop]
      · have hto4 : to4 ip = none := by
          unfold to4
          rw [if_neg h4, if_neg (fun h => hv4 h.2)]
        obtain ⟨hlen, hlt, hback⟩ := groups_spec 8 h16
        obtain ⟨e, r, hrun, htext⟩ := ipString_groups hto4 h16
        rw [htext]
        split
        · have hfind := find?_joinGroups [] (Or.inl (by omega : 2 ≤ (groups ip).length))
          rw [List.append_nil] at hfind
          rw [parseIP_colon hfind, parseIPv6_joinGroups hlt hlen, hback]
        · have hfind : (shortened (groups ip) e r).find? (fun c => c = '.' ∨ c = ':') = some ':' :=
            find?_joinGroups _ (Or.inr rfl)
          rw [parseIP_colon hfind, parseIPv6_shortened hlt hlen hrun (by omega), hback]
    · rw [parseIP_malformed h4 h16]
      unfold to16
      rw [if_neg h4, if_neg h16]

/-! ## What is read is an address -/

theorem length_parseOctets {k : ℕ} {s : List Char} {bs : List UInt8}
    (h : parseOctets k s = some bs) : bs.length = k := by
  fun_induction parseOctets k s generalizing bs with
  | case1 =>
    cases h
    rfl
  | case4 k s b rest hb ih =>
    obtain ⟨tail, htail, rfl⟩ := Option.map_eq_some_iff.mp h
    rw [List.length_cons, ih htail]
  | _ => cases h

theorem length_parseIPv4 {s : List Char} {ip : IP} (h : parseIPv4 s = some ip) :
    ip.length = 16 := by
  unfold parseIPv4 at h
  split at h
  next => cases h
  next b rest _ =>
    obtain ⟨bs, hbs, rfl⟩ := Option.map_eq_some_iff.mp h
    rw [List.length_append, List.length_cons, length_parseOctets hbs]
    rfl

theorem length_expandEllipsis {bytes : List UInt8} (hbytes : bytes.length ≤ 16)
    {ellipsis : Option ℕ} {ip : IP} (h : expandEllipsis bytes ellipsis = some ip) :
    ip.length = 16 := by
  unfold expandEllipsis at h
  split at h
  next =>
    split at h
    next hlen =>
      cases h
      exact hlen
    next => cases h
  next e =>
    split at h
    next => cases h
    next =>
      cases h
      have hsplit := congrArg List.length (List.take_append_drop e bytes)
      rw [List.length_append] at hsplit
      rw [List.length_append, List.length_append, List.length_replicate]
      omega

/-- The groups that are still to fill leave room for their bytes. -/
theorem length_parseGroups {k : ℕ} {bytes : List UInt8} {ellipsis : Option ℕ} {s : List Char}
    {ip : IP} (hbytes : bytes.length + 2 * k ≤ 16)
    (h : parseGroups k bytes ellipsis s = some ip) : ip.length = 16 := by
  induction k generalizing bytes ellipsis s with
  | zero =>
    rw [parseGroups] at h
    split at h
    · exact length_expandEllipsis (by omega) h
    · cases h
  | succ k ih =>
    have hgroup : ∀ n : ℕ, (bytes ++ [UInt8.ofNat (n / 256), UInt8.ofNat n]).length + 2 * k ≤ 16 := by
      intro n
      rw [List.length_append]
      show bytes.length + 2 + 2 * k ≤ 16
      omega
    rw [parseGroups] at h
    split at h
    · cases h
    split at h
    · cases h
    next n _ rest _ _ =>
      have hlast := hgroup n
      split at h
      · exact length_expandEllipsis (by omega) h
      · split at h
        · cases h
        split at h
        · cases h
        split at h
        · cases h
        next ip4 hip4 =>
          refine length_expandEllipsis ?_ h
          rw [List.length_append, List.length_drop, length_parseIPv4 hip4]
          omega
      · cases h
      · split at h
        · cases h
        dsimp only at h
        split at h
        · exact length_expandEllipsis (by omega) h
        · exact ih hlast h
      · exact ih hlast h
      · cases h

/-- **What `ParseIP` reads has 16 bytes.** -/
theorem length_parseIP {s : String} {ip : IP} (h : parseIP s = some ip) : ip.length = 16 := by
  unfold parseIP at h
  split at h
  · exact length_parseIPv4 h
  · unfold parseIPv6 at h
    split at h
    · cases h
      rfl
    · exact length_parseGroups (by decide) h
    · exact length_parseGroups (by decide) h
  · cases h

end NetAddr
