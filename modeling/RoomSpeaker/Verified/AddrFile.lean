import RoomSpeaker.Verified.AddrText

/-!
# Addresses in files

`operator<<` looks for the slash of a range with `find`, whose result is no
condition: every line is read as one with a range.  Of a line without one only
the address is read, and the mask is made of a variable that is not set.

`operator>>` counts the bits of a mask from the lowest, where a mask in network
order has its highest byte.

## Main results

* `read_write_plain`, `read_write_range` — what is read of what was written.
* `lowOnes_rangeMask` — the count that is written for a range.
* `roundTrips_iff` — an address comes back exactly when it has no range and no
  port and the variable happens to make an empty range.
-/

namespace RoomSpeaker

open Foundation

/-! ## Lines -/

/-- The line of a format is read back without its end. -/
theorem getline_sprintf {ds : List Directive} {xs : List (BitVec 32)}
    (hlen : xs.length = arity ds) (hds : .lit newline ∉ ds) :
    getline (sprintf (ds ++ [.lit newline]) xs) = sprintf ds xs := by
  have hnew : newline ∉ sprintf ds xs := by
    intro hmem
    rcases mem_sprintf hmem with hdigit | hminus | hlit
    · exact absurd hdigit (by decide)
    · exact absurd hminus (by decide)
    · exact hds hlit
  rw [sprintf_snoc newline hlen, getline,
    List.takeWhile_append_of_pos (bne_of_notMem hnew)]
  simp

/-- A line that starts with a number does not start with a slash, and that is all
that `find` is asked. -/
theorem findsSlash_print (k : Conv) (x : BitVec 32) (rest : List Byte) :
    findsSlash (k.print x ++ rest) = true := by
  cases hprint : k.print x with
  | nil => exact absurd hprint (print_ne_nil k x)
  | cons b bs =>
      have hb : b ≠ ch '/' := by
        rintro rfl
        rcases mem_print (hprint ▸ List.mem_cons_self) with hdigit | hminus
        · exact absurd hdigit (by decide)
        · exact absurd hminus (by decide)
      have hidx : (b :: bs ++ rest).idxOf? (ch '/') ≠ some 0 := by
        rw [List.cons_append, List.idxOf?_cons, if_neg (mt beq_iff_eq.mp hb)]
        simp
      exact decide_eq_true hidx

theorem htons_zero : htons 0 = 0 := by decide

/-- The address of a line, set in any record. -/
theorem set_ip4 (s t : Saddr46) (port : BitVec 16) (m : BitVec 32) :
    Saddr46.set { t with mask := m } s.ip4 port = ⟨s.sAddr, htons port, m⟩ := by
  simp only [Saddr46.set, Saddr46.ip4, htonl_htonl]

theorem ip4_ne_zero {s : Saddr46} (h : s.sAddr ≠ 0) : s.ip4 ≠ 0 := by
  intro hzero
  have hback := congrArg htonl hzero
  rw [Saddr46.ip4, htonl_htonl] at hback
  exact h (hback.trans (by decide))

/-- A line without a range gives the address.  The port is not read, and the
mask is that of an unset number of bits. -/
theorem read_write_plain (s t : Saddr46) (bits : BitVec 32)
    (hmask : s.mask = noMask) (haddr : s.sAddr ≠ 0) :
    t.read s.write bits = (rangeMask bits).map fun m => ⟨s.sAddr, 0, m⟩ := by
  have hline : getline s.write = sprintf plainFmt [s.ip4, s.port.setWidth 32] := by
    rw [Saddr46.write, if_neg (not_not_intro hmask)]
    exact getline_sprintf rfl (by decide)
  have hscan : sscanf rangeFmt (getline s.write) = [s.ip4] := by
    -- the colon is not the slash of the format
    have hcolon : Ends (sprintf [.lit (ch ':'), .conv .int] [s.port.setWidth 32]) :=
      ends_cons _ (by decide)
    rw [hline, plainFmt, rangeFmt, sprintf, sscanf_conv _ _ _ hcolon, sprintf, sscanf,
      if_neg (by decide)]
  have hslash : findsSlash (getline s.write) = true := by
    rw [hline]
    exact findsSlash_print _ _ _
  have hport : htons ((0 : BitVec 32).setWidth 16) = 0 := htons_zero
  simp only [Saddr46.read, hslash, hscan, if_true, List.getD_cons_zero,
    List.getD_cons_succ, List.getD_nil, if_pos (ip4_ne_zero haddr), set_ip4, hport]

/-- A line with a range gives the address, the port, and the mask of the bits
that were counted. -/
theorem read_write_range (s t : Saddr46) (bits : BitVec 32)
    (hmask : s.mask ≠ noMask) (haddr : s.sAddr ≠ 0) :
    t.read s.write bits =
      (rangeMask (BitVec.ofNat 32 (lowOnes 32 (~~~s.mask)))).map fun m =>
        ⟨s.sAddr, s.sinPort, m⟩ := by
  have hline : getline s.write = sprintf rangeFmt
      [s.ip4, BitVec.ofNat 32 (lowOnes 32 (~~~s.mask)), s.port.setWidth 32] := by
    rw [Saddr46.write, if_pos hmask]
    exact getline_sprintf rfl (by decide)
  have hscan : sscanf rangeFmt (getline s.write) =
      [s.ip4, BitVec.ofNat 32 (lowOnes 32 (~~~s.mask)), s.port.setWidth 32] := by
    rw [hline]
    exact sscanf_sprintf (by simp [rangeFmt, Apart]; decide) _ rfl
  have hslash : findsSlash (getline s.write) = true := by
    rw [hline]
    exact findsSlash_print _ _ _
  have hport : htons ((s.port.setWidth 32).setWidth 16) = s.sinPort := by
    simp [Saddr46.port, htons_htons]
  simp only [Saddr46.read, hslash, hscan, if_true, List.getD_cons_zero,
    List.getD_cons_succ, if_pos (ip4_ne_zero haddr), set_ip4, hport]

/-! ## Masks -/

theorem powInt_ofNat {k : Nat} (h : k ≤ 30) :
    powInt (BitVec.ofNat 32 k) = some (BitVec.ofNat 32 (2 ^ k - 1)) := by
  have hnat : (BitVec.ofNat 32 k).toNat = k := by
    rw [BitVec.toNat_ofNat]
    omega
  have hint : (BitVec.ofNat 32 k).toInt = k := by
    rw [BitVec.toInt_eq_toNat_of_lt] <;> omega
  rw [powInt, hint, hnat, if_neg (by omega)]
  by_cases hk : (k : Int) ≤ 0
  · obtain rfl : k = 0 := by omega
    rfl
  · rw [if_neg hk, if_pos (by omega)]

theorem rangeMask_ofNat {k : Nat} (h : k ≤ 30) :
    rangeMask (BitVec.ofNat 32 k) =
      some (htonl (~~~BitVec.ofNat 32 (2 ^ k - 1))) := by
  rw [rangeMask, powInt_ofNat h]
  rfl

theorem htonl_not_inj {x y : BitVec 32} (h : htonl (~~~x) = htonl (~~~y)) : x = y := by
  have hback := congrArg htonl h
  rw [htonl_htonl, htonl_htonl] at hback
  exact BitVec.not_inj.mp hback

/-- Ranges have different masks. -/
theorem rangeMask_inj {j k : Nat} (hj : j ≤ 30) (hk : k ≤ 30)
    (h : rangeMask (BitVec.ofNat 32 j) = rangeMask (BitVec.ofNat 32 k)) : j = k := by
  rw [rangeMask_ofNat hj, rangeMask_ofNat hk, Option.some.injEq] at h
  have hval := congrArg BitVec.toNat (htonl_not_inj h)
  have hfit : ∀ i ≤ 30, 2 ^ i - 1 < 2 ^ 32 := fun i hi => by
    have := Nat.pow_le_pow_right (n := 2) (by decide) hi
    omega
  rw [BitVec.toNat_ofNat, BitVec.toNat_ofNat, Nat.mod_eq_of_lt (hfit j hj),
    Nat.mod_eq_of_lt (hfit k hk)] at hval
  have hposj := Nat.two_pow_pos j
  have hposk := Nat.two_pow_pos k
  exact Nat.pow_right_injective (Nat.le_refl 2) (by show 2 ^ j = 2 ^ k; omega)

/-- The bits that are counted are those of the last byte in memory. -/
theorem lowOnes_rangeMask {k : Nat} (h : k ≤ 30) {m : BitVec 32}
    (hm : rangeMask (BitVec.ofNat 32 k) = some m) :
    lowOnes 32 (~~~m) = k - 24 := by
  have hall : ∀ i : Fin 31,
      lowOnes 32 (~~~htonl (~~~BitVec.ofNat 32 (2 ^ i.val - 1))) = i.val - 24 := by
    decide +kernel
  rw [rangeMask_ofNat h, Option.some.injEq] at hm
  rw [← hm]
  exact hall ⟨k, by omega⟩

theorem powInt_eq_zero_iff (bits : BitVec 32) :
    powInt bits = some 0 ↔ -53 ≤ bits.toInt ∧ bits.toInt ≤ 0 := by
  unfold powInt
  split
  · next hlow =>
      have hne : (some (-1) : Option (BitVec 32)) ≠ some 0 := by decide
      exact iff_of_false hne (by omega)
  · next hlow =>
      split
      · next hle => exact iff_of_true rfl ⟨by omega, hle⟩
      · next hle =>
          refine iff_of_false ?_ (by omega)
          split
          · next hhigh =>
              intro h
              have hpos : 1 ≤ bits.toNat ∧ bits.toNat ≤ 31 := by
                have hnat := BitVec.toInt_eq_toNat_cond bits
                split at hnat <;> omega
              have htwo := Nat.pow_le_pow_right (n := 2) (by decide) hpos.1
              have hfit := Nat.pow_le_pow_right (n := 2) (by decide) hpos.2
              have hval := congrArg BitVec.toNat (Option.some.inj h)
              rw [BitVec.toNat_ofNat, Nat.mod_eq_of_lt (by omega)] at hval
              have hzero : (0 : BitVec 32).toNat = 0 := rfl
              omega
          · exact fun h => nomatch h

/-- An unset number of bits makes an empty range. -/
theorem rangeMask_eq_noMask_iff (bits : BitVec 32) :
    rangeMask bits = some noMask ↔ -53 ≤ bits.toInt ∧ bits.toInt ≤ 0 := by
  have hzero : noMask = htonl (~~~(0 : BitVec 32)) := by decide
  rw [← powInt_eq_zero_iff, rangeMask, Option.map_eq_some_iff]
  constructor
  · rintro ⟨msk, hmsk, heq⟩
    rw [hmsk, htonl_not_inj (heq.trans hzero)]
  · intro h
    exact ⟨0, h, hzero.symm⟩

/-! ## Round trips -/

/-- The line that is written of `s` is read as `s`, into whatever address. -/
def RoundTrips (s : Saddr46) (bits : BitVec 32) : Prop :=
  ∀ t : Saddr46, t.read s.write bits = some s

/-- An address with no range or one of at most 30 bits comes back exactly when
it has no range and no port, and the number of bits that is not set is between
-53 and 0. -/
theorem roundTrips_iff (s : Saddr46) (bits : BitVec 32) (haddr : s.sAddr ≠ 0)
    (hmask : s.mask = noMask ∨
      ∃ k ≤ 30, rangeMask (BitVec.ofNat 32 k) = some s.mask) :
    RoundTrips s bits ↔
      s.mask = noMask ∧ s.port = 0 ∧ -53 ≤ bits.toInt ∧ bits.toInt ≤ 0 := by
  rw [← rangeMask_eq_noMask_iff]
  by_cases hplain : s.mask = noMask
  · constructor
    · intro h
      have hback := h Saddr46.zero
      rw [read_write_plain s _ bits hplain haddr] at hback
      obtain ⟨m, hm, heq⟩ := Option.map_eq_some_iff.mp hback
      have hport : s.port = 0 := by
        rw [Saddr46.port, ← heq]
        exact htons_zero
      have hread : m = s.mask := by rw [← heq]
      exact ⟨hplain, hport, by rw [hm, hread, hplain]⟩
    · rintro ⟨_, hport, hbits⟩ t
      have hsin : s.sinPort = 0 := by
        rw [← htons_htons s.sinPort]
        exact (congrArg htons hport).trans htons_zero
      rw [read_write_plain s t bits hplain haddr, hbits, Option.map_some, ← hplain, ← hsin]
  · obtain ⟨k, hk, hrange⟩ := hmask.resolve_left hplain
    refine iff_of_false (fun h => hplain ?_) (fun h => hplain h.1)
    have hback := h Saddr46.zero
    rw [read_write_range s _ bits hplain haddr, lowOnes_rangeMask hk hrange] at hback
    obtain ⟨m, hm, heq⟩ := Option.map_eq_some_iff.mp hback
    -- the same range again is the empty one
    have hsame : rangeMask (BitVec.ofNat 32 (k - 24)) = rangeMask (BitVec.ofNat 32 k) := by
      rw [hm, hrange, ← heq]
    have hzero : k = 0 := by
      have := rangeMask_inj (by omega) hk hsame
      omega
    subst hzero
    have hempty : rangeMask 0 = some noMask := by decide
    exact Option.some.inj (hrange.symm.trans hempty)

/-- `1.2.3.4` without a port, and the bits happen to be 0. -/
theorem roundTrips_of_zero_bits : RoundTrips ⟨word 1 2 3 4, 0, noMask⟩ 0 :=
  (roundTrips_iff _ 0 (by decide) (Or.inl rfl)).mpr
    ⟨rfl, by decide, by decide, by decide⟩

/-- `1.2.3.4:80`: the port is lost. -/
theorem roundTrips_fails_on_port :
    ¬RoundTrips ⟨word 1 2 3 4, htons 80, noMask⟩ 0 := by
  intro h
  have hback := h Saddr46.zero
  rw [read_write_plain _ _ _ rfl (by decide)] at hback
  exact absurd hback (by decide)

end RoomSpeaker
