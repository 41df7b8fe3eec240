import RoomSpeaker.Verified.ByteOrder

/-!
# Addresses read from texts

`sip2ip` and the constructor from a text read the same numbers.  The constructor
stores them in network order, `sip2ip` stores the number that their shifts give,
which is the other order.

## Main results

* `inetAton_dotted` — a dotted text is read as the address it was printed from.
* `sip2ip_text`, `ofText_text` — what the two converters make of a text with a
  port.
* `convertersAgree_iff` — they agree, and the address is printed as it was read,
  exactly when the numbers read the same backwards.
-/

namespace RoomSpeaker

open Foundation

/-! ## Reading numbers -/

theorem decimal_zero : decimal 0 = [ch '0'] := rfl

/-- A printed number is read in base 10, whatever its first digit. -/
theorem scanAuto_decimal (n : Nat) {rest : List Byte} (h : Ends rest)
    (hx : ∀ b ∈ rest.head?, digitVal b = 16 ∧ b ≠ ch 'x' ∧ b ≠ ch 'X') :
    scanAuto (decimal n ++ rest) = some (n, rest) := by
  have hne := decimal_ne_nil n
  by_cases hn : n = 0
  · -- a single 0 counts as octal
    subst hn
    rw [decimal_zero, scanAuto]
    cases rest with
    | nil => decide
    | cons b rest =>
        obtain ⟨hval, hb, hb'⟩ := hx b rfl
        have hoct : isDigitIn 8 b = false := by simp [isDigitIn, hval]
        have hzero : isDigitIn 8 (ch '0') = true := by decide
        simp [scanDigits, hb, hb', hoct, hzero]
        decide
  · have hhead : (decimal n ++ rest).head? ≠ some (ch '0') := by
      rw [List.head?_append_of_ne_nil _ hne]
      intro hzero
      exact absurd (digitVal_head_decimal (Nat.pos_of_ne_zero hn) _ hzero) (by decide)
    rw [scanAuto, if_neg hhead, scanDigits_decimal n h]

theorem head_decimal_append (n : Nat) (rest : List Byte) :
    (decimal n ++ rest).head?.any isDigit = true := by
  cases hd : decimal n with
  | nil => exact absurd hd (decimal_ne_nil n)
  | cons b ds => exact isDigit_of_mem_decimal (n := n) b (hd ▸ List.mem_cons_self)

/-! ## Dotted addresses -/

theorem ends_dot (s : List Byte) : Ends (ch '.' :: s) := ends_cons s (by decide)

/-- A number with a dot behind it. -/
theorem inetParts_dot (n : Nat) (bytes : List Byte) (a : Byte) (s : List Byte)
    (h : bytes.length ≤ 2) :
    inetParts (n + 1) bytes (decimal a.toNat ++ ch '.' :: s) =
      inetParts n (bytes ++ [a]) s := by
  have ha := a.isLt
  have hfit : ¬(2 < bytes.length ∨ 255 < a.toNat) := by omega
  have hscan : scanAuto (decimal a.toNat ++ ch '.' :: s) =
      some (a.toNat, ch '.' :: s) := by
    apply scanAuto_decimal _ (ends_dot s)
    intro b hb
    rw [← Option.mem_some_iff.mp hb]
    decide
  rw [inetParts, if_pos (head_decimal_append _ _), hscan]
  simp only [List.head?_cons, if_true, if_neg hfit, List.tail_cons,
    BitVec.ofNat_toNat, BitVec.setWidth_eq]

/-- The last of four numbers. -/
theorem inetParts_last (n : Nat) (a b c d : Byte) :
    inetParts (n + 1) [a, b, c] (decimal d.toNat) = some (word a b c d) := by
  have hscan := scanAuto_decimal d.toNat ends_nil (by simp)
  have hhead := head_decimal_append d.toNat []
  rw [List.append_nil] at hscan hhead
  have hend : atEnd [] = true ∧ d.toNat < 256 ^ (4 - [a, b, c].length) :=
    ⟨rfl, d.isLt⟩
  rw [inetParts, if_pos hhead, hscan]
  simp only [List.head?_nil, reduceCtorEq, if_false, if_pos hend, or_htonl_last]

theorem dotted_eq (a b c d : Byte) :
    dotted a b c d = decimal a.toNat ++ ch '.' :: (decimal b.toNat ++
      ch '.' :: (decimal c.toNat ++ ch '.' :: decimal d.toNat)) := by
  simp only [dotted, dottedFmt, sprintf, Conv.print, toNat_octet, List.append_nil]

/-- A dotted text has at most 15 characters. -/
theorem length_dotted_le (a b c d : Byte) : (dotted a b c d).length ≤ 15 := by
  have hthree : ∀ x : Byte, (decimal x.toNat).length ≤ 3 := fun x =>
    (length_decimal_le_iff (by decide)).mpr (Nat.lt_trans x.isLt (by decide))
  have ha := hthree a
  have hb := hthree b
  have hc := hthree c
  have hd := hthree d
  simp only [dotted_eq, List.length_append, List.length_cons]
  omega

/-- A dotted text is read as the address it was printed from. -/
theorem inetAton_dotted (a b c d : Byte) :
    inetAton (dotted a b c d) = some (word a b c d) := by
  rw [dotted_eq, inetAton]
  calc
    _ = inetParts 3 [a] _ := inetParts_dot 3 [] a _ (by decide)
    _ = inetParts 2 [a, b] _ := inetParts_dot 2 [a] b _ (by simp)
    _ = inetParts 1 [a, b, c] _ := inetParts_dot 1 [a, b] c _ (by simp)
    _ = some (word a b c d) := inetParts_last 0 a b c d

theorem inetAddr_dotted (a b c d : Byte) :
    inetAddr (dotted a b c d) = word a b c d := by
  rw [inetAddr, inetAton_dotted]
  rfl

/-! ## A text with a port -/

/-- The text of an address and a port. -/
def addrText (a b c d : Byte) (p : BitVec 16) : List Byte :=
  sprintf dottedPortFmt [octet a, octet b, octet c, octet d, p.setWidth 32]

theorem toInt_port (p : BitVec 16) : (p.setWidth 32).toInt = p.toNat := by
  have hp := p.isLt
  rw [BitVec.toInt_eq_toNat_of_lt] <;> rw [BitVec.toNat_setWidth] <;> omega

theorem print_port (p : BitVec 16) :
    Conv.int.print (p.setWidth 32) = decimal p.toNat := by
  have hnn : ¬(p.toNat : Int) < 0 := by omega
  rw [Conv.print, toInt_port, if_neg hnn, Int.natAbs_natCast]

theorem addrText_eq (a b c d : Byte) (p : BitVec 16) :
    addrText a b c d p = dotted a b c d ++ ch ':' :: decimal p.toNat := by
  rw [addrText, dottedPortFmt, dottedFmt, dotted_eq]
  simp only [List.cons_append, List.nil_append, sprintf, print_port,
    List.append_nil, List.append_assoc]
  simp only [Conv.print, toNat_octet]

/-- A dotted text has only digits and dots. -/
theorem notMem_dotted (a b c d : Byte) {x : Byte} (hx : isDigit x = false)
    (hminus : x ≠ ch '-') (hdot : x ≠ ch '.') : x ∉ dotted a b c d := by
  intro h
  rcases mem_sprintf h with hdigit | heq | hlit
  · rw [hx] at hdigit
    cases hdigit
  · exact hminus heq
  · simp [dottedFmt, hdot] at hlit

/-- The dotted text as a C string. -/
def dottedText (a b c d : Byte) : Text :=
  ⟨dotted a b c d, notMem_dotted a b c d (by decide) (by decide) (by decide)⟩

theorem cutAt_append (c : Byte) {s : List Byte} (t : List Byte) (h : c ∉ s) :
    cutAt c (s ++ c :: t) = (s, some t) := by
  have hall := bne_of_notMem h
  rw [cutAt, List.takeWhile_append_of_pos hall, List.dropWhile_append_of_pos hall,
    if_pos (by simp)]
  simp

theorem cutAt_none (c : Byte) {s : List Byte} (h : c ∉ s) : cutAt c s = (s, none) := by
  have hall := bne_of_notMem h
  rw [cutAt, List.takeWhile_eq_self_iff.mpr hall, if_neg h]

theorem atoi_port (p : BitVec 16) : (atoi (decimal p.toNat)).setWidth 16 = p := by
  obtain ⟨v, hscan, hread⟩ := scanNumeral_print .int (p.setWidth 32) ends_nil
  rw [print_port, List.append_nil] at hscan
  simp only [Conv.read] at hread
  simp only [atoi, hscan, hread]
  simp

/-- `sip2ip` stores the bytes in the order of the shifts. -/
theorem sip2ip_text (a b c d : Byte) (p q : BitVec 16) :
    sip2ip (addrText a b c d p) q = ⟨word d c b a, htons p, noMask⟩ := by
  have hhead : (addrText a b c d p).head?.any isDigit = true := by
    rw [addrText_eq, dotted_eq, List.append_assoc]
    exact head_decimal_append _ _
  have hcolon : ch ':' ∈ addrText a b c d p := by
    simp [addrText_eq]
  have hscan : sscanf dottedPortFmt (addrText a b c d p) =
      [octet a, octet b, octet c, octet d, p.setWidth 32] :=
    sscanf_sprintf (by simp [dottedPortFmt, dottedFmt, Apart]; decide) _ rfl
  have hport : (p.setWidth 32).setWidth 16 = p := by simp
  rw [sip2ip, if_pos hhead, decide_eq_true hcolon, hscan]
  simp only [quad_octets, hport, Saddr46.ofIp]

/-- The constructor stores them in the order they are written in. -/
theorem ofText_text (a b c d : Byte) (p : BitVec 16) :
    Saddr46.ofText (addrText a b c d p) =
      some ⟨word a b c d, htons p, noMask⟩ := by
  have hcolon := cutAt_append (ch ':') (decimal p.toNat)
    (notMem_dotted a b c d (x := ch ':') (by decide) (by decide) (by decide))
  have hslash := cutAt_none (ch '/')
    (notMem_dotted a b c d (x := ch '/') (by decide) (by decide) (by decide))
  simp only [Saddr46.ofText, fromString, addrText_eq, hcolon, hslash, atoi_port,
    inetAddr_dotted]

/-- `Ip2str` prints the address in the order of memory. -/
theorem ip2str_word (a b c d : Byte) (p : BitVec 16) (m : BitVec 32)
    (h : word a b c d ≠ 0) :
    ip2str ⟨word a b c d, htons p, m⟩ = addrText a b c d p := by
  obtain ⟨ha, hb, hc, hd⟩ := word_bytes d c b a
  rw [ip2str, if_pos h]
  simp only [htonl_word, ha, hb, hc, hd, htons_htons]
  rfl

/-! ## Agreement -/

/-- The two converters give one address and port, and it is printed as it was
read. -/
structure ConvertersAgree (a b c d : Byte) (p : BitVec 16) : Prop where
  same : ∀ q, ∃ s, Saddr46.ofText (addrText a b c d p) = some s ∧
    (sip2ip (addrText a b c d p) q).sAddr = s.sAddr ∧
    (sip2ip (addrText a b c d p) q).sinPort = s.sinPort
  printed : ∀ s, Saddr46.ofText (addrText a b c d p) = some s →
    ip2str s = addrText a b c d p
  printedToo : ∀ q,
    ip2str (sip2ip (addrText a b c d p) q) = addrText a b c d p

/-- They agree exactly when the numbers read the same backwards. -/
theorem convertersAgree_iff (a b c d : Byte) (p : BitVec 16)
    (h : ¬(a = 0 ∧ b = 0 ∧ c = 0 ∧ d = 0)) :
    ConvertersAgree a b c d p ↔ a = d ∧ b = c := by
  have hne : word a b c d ≠ 0 := fun hzero => h (word_inj (hzero : _ = word 0 0 0 0))
  constructor
  · intro hagree
    obtain ⟨s, hs, haddr, _⟩ := hagree.same 0
    rw [ofText_text, Option.some.injEq] at hs
    subst hs
    rw [sip2ip_text] at haddr
    obtain ⟨had, hbc, _, _⟩ := word_inj haddr
    exact ⟨had.symm, hbc.symm⟩
  · rintro ⟨rfl, rfl⟩
    refine ⟨fun q => ⟨_, ofText_text a b b a p, ?_, ?_⟩, ?_, fun q => ?_⟩
    · rw [sip2ip_text]
    · rw [sip2ip_text]
    · intro s hs
      rw [ofText_text, Option.some.injEq] at hs
      rw [← hs, ip2str_word _ _ _ _ _ _ hne]
    · rw [sip2ip_text, ip2str_word _ _ _ _ _ _ hne]

theorem convertersAgree_loopback : ConvertersAgree 127 0 0 127 1234 :=
  (convertersAgree_iff 127 0 0 127 1234 (by decide)).mpr ⟨rfl, rfl⟩

/-- `1.2.3.4:80`. -/
theorem convertersAgree_fails_on_order : ¬ConvertersAgree 1 2 3 4 80 := by
  intro h
  obtain ⟨s, hs, haddr, _⟩ := h.same 0
  rw [ofText_text, Option.some.injEq] at hs
  subst hs
  rw [sip2ip_text] at haddr
  exact absurd (word_inj haddr).1 (by decide)

end RoomSpeaker
