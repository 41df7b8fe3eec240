import RoomSpeaker.Model.SaddrText

/-!
# The byte order of addresses

`word a b c d` is the number whose bytes in memory are `a`, `b`, `c`, `d`.
`htonl` turns them round, and the shifts of `sip2ip` and `Ip2str` put them
together and take them apart from the other end.

## Main results

* `htonl_htonl`, `htons_htons` — changing the order twice changes nothing.
* `quad_octets` — the number `sip2ip` makes has its bytes the wrong way round.
-/

namespace RoomSpeaker

open Foundation

/-- The number with these bytes in memory. -/
def word (a b c d : Byte) : BitVec 32 := BitVec.ofNat 32 (ofBytes [a, b, c, d])

theorem toNat_word (a b c d : Byte) :
    (word a b c d).toNat = ofBytes [a, b, c, d] := by
  have hlt : ofBytes [a, b, c, d] < 2 ^ 32 := by
    simpa using ofBytes_lt [a, b, c, d]
  rw [word, BitVec.toNat_ofNat, Nat.mod_eq_of_lt hlt]

theorem word_inj {a b c d a' b' c' d' : Byte}
    (h : word a b c d = word a' b' c' d') : a = a' ∧ b = b' ∧ c = c' ∧ d = d' := by
  have hval := congrArg BitVec.toNat h
  rw [toNat_word, toNat_word] at hval
  have hbytes := congrArg (toBytes 4) hval
  have hleft := toBytes_ofBytes [a, b, c, d]
  have hright := toBytes_ofBytes [a', b', c', d']
  simp only [List.length_cons, List.length_nil, Nat.zero_add, Nat.reduceAdd]
    at hleft hright
  simpa only [hleft, hright, List.cons.injEq, and_true] using hbytes

/-- A number in memory: its bytes. -/
theorem exists_word (x : BitVec 32) : ∃ a b c d, x = word a b c d := by
  refine ⟨BitVec.ofNat 8 x.toNat, BitVec.ofNat 8 (x.toNat / 256),
    BitVec.ofNat 8 (x.toNat / 256 / 256), BitVec.ofNat 8 (x.toNat / 256 / 256 / 256),
    ?_⟩
  apply BitVec.eq_of_toNat_eq
  rw [toNat_word]
  have hx := x.isLt
  have hfit : x.toNat < 256 ^ 4 := by omega
  have hval := ofBytes_toBytes 4 x.toNat
  rw [Nat.mod_eq_of_lt hfit] at hval
  exact hval.symm

theorem htonl_word (a b c d : Byte) : htonl (word a b c d) = word d c b a := by
  have hbytes : toBytes 4 (ofBytes [a, b, c, d]) = [a, b, c, d] :=
    toBytes_ofBytes [a, b, c, d]
  rw [htonl, toNat_word, hbytes]
  rfl

theorem htonl_htonl (x : BitVec 32) : htonl (htonl x) = x := by
  obtain ⟨a, b, c, d, rfl⟩ := exists_word x
  rw [htonl_word, htonl_word]

theorem htons_htons (x : BitVec 16) : htons (htons x) = x := by
  have hlen : (toBytes 2 x.toNat).reverse.length = 2 := by simp
  have hlt := ofBytes_lt (toBytes 2 x.toNat).reverse
  have hbytes := toBytes_ofBytes (toBytes 2 x.toNat).reverse
  rw [hlen] at hlt hbytes
  have hx := x.isLt
  have hfit : ofBytes (toBytes 2 x.toNat).reverse < 2 ^ 16 := by omega
  have hback : x.toNat % 256 ^ 2 = x.toNat := by omega
  apply BitVec.eq_of_toNat_eq
  rw [htons, htons, BitVec.toNat_ofNat, BitVec.toNat_ofNat, Nat.mod_eq_of_lt hfit,
    hbytes, List.reverse_reverse, ofBytes_toBytes, hback, Nat.mod_eq_of_lt hx]

/-- Three bytes and the last one, put together as `inet_aton` does. -/
theorem or_htonl_last (a b c d : Byte) :
    BitVec.ofNat 32 (ofBytes [a, b, c]) ||| htonl (BitVec.ofNat 32 d.toNat) =
      word a b c d := by
  have hlow : ofBytes [a, b, c] < 2 ^ 24 := by simpa using ofBytes_lt [a, b, c]
  have hlast : BitVec.ofNat 32 d.toNat = word d 0 0 0 := by simp [word, ofBytes]
  have hhigh : ofBytes [0, 0, 0, d] = 2 ^ 24 * d.toNat := by
    have hzero : (0 : Byte).toNat = 0 := rfl
    simp only [ofBytes, hzero]
    omega
  apply BitVec.eq_of_toNat_eq
  rw [hlast, htonl_word, BitVec.toNat_or, toNat_word, toNat_word, hhigh,
    BitVec.toNat_ofNat, Nat.mod_eq_of_lt (by omega), Nat.or_comm,
    ← Nat.two_pow_add_eq_or_of_lt hlow]
  simp only [ofBytes]
  omega

/-! ## Shifts -/

theorem toNat_octet (b : Byte) : (octet b).toNat = b.toNat := by
  have hlt := b.isLt
  rw [octet, BitVec.toNat_setWidth]
  omega

/-- The byte that a shift brings to the front. -/
theorem shifted_and (x : BitVec 32) (k : Nat) :
    ((x >>> k) &&& 0xff).toNat = x.toNat / 2 ^ k % 256 := by
  rw [BitVec.toNat_and, BitVec.toNat_ushiftRight, Nat.shiftRight_eq_div_pow]
  exact Nat.and_two_pow_sub_one_eq_mod (x.toNat / 2 ^ k) 8

theorem and_octet (b : Byte) : octet b &&& 0xff = octet b := by
  have hlt := b.isLt
  have h := shifted_and (octet b) 0
  apply BitVec.eq_of_toNat_eq
  rw [BitVec.ushiftRight_zero, toNat_octet] at h
  rw [h, toNat_octet]
  omega

/-- The arguments `Ip2str` prints. -/
theorem word_bytes (a b c d : Byte) :
    (word a b c d >>> 24) &&& 0xff = octet d ∧
      (word a b c d >>> 16) &&& 0xff = octet c ∧
      (word a b c d >>> 8) &&& 0xff = octet b ∧
      word a b c d &&& 0xff = octet a := by
  have ha := a.isLt
  have hb := b.isLt
  have hc := c.isLt
  have hd := d.isLt
  have hword := toNat_word a b c d
  simp only [ofBytes] at hword
  refine ⟨?_, ?_, ?_, ?_⟩ <;> apply BitVec.eq_of_toNat_eq
  · rw [shifted_and, toNat_octet, hword]
    omega
  · rw [shifted_and, toNat_octet, hword]
    omega
  · rw [shifted_and, toNat_octet, hword]
    omega
  · have hlow := shifted_and (word a b c d) 0
    rw [BitVec.ushiftRight_zero] at hlow
    rw [hlow, toNat_octet, hword]
    omega

/-- A byte put in front of lower ones. -/
theorem octet_shiftLeft_or (b : Byte) {y : BitVec 32} {k : Nat} (hk : k ≤ 24)
    (hy : y.toNat < 2 ^ k) :
    (octet b <<< k ||| y).toNat = 2 ^ k * b.toNat + y.toNat := by
  have hfit : b.toNat * 2 ^ k < 2 ^ 32 := by
    calc b.toNat * 2 ^ k < 2 ^ 8 * 2 ^ k :=
          Nat.mul_lt_mul_of_pos_right b.isLt (Nat.two_pow_pos k)
      _ ≤ 2 ^ 8 * 2 ^ 24 :=
          Nat.mul_le_mul_left _ (Nat.pow_le_pow_right (by decide) hk)
  rw [BitVec.toNat_or, BitVec.toNat_shiftLeft, Nat.shiftLeft_eq, toNat_octet,
    Nat.mod_eq_of_lt hfit, Nat.mul_comm, ← Nat.two_pow_add_eq_or_of_lt hy]

/-- `sip2ip` puts the first number in the highest byte, which lies last in
memory. -/
theorem quad_octets (a b c d : Byte) :
    quad (octet a) (octet b) (octet c) (octet d) = word d c b a := by
  have hb := b.isLt
  have hc := c.isLt
  have hd := d.isLt
  have hone : (octet c <<< 8 ||| octet d).toNat = 2 ^ 8 * c.toNat + d.toNat := by
    rw [octet_shiftLeft_or c (by decide) (by rwa [toNat_octet]), toNat_octet]
  have htwo : (octet b <<< 16 ||| (octet c <<< 8 ||| octet d)).toNat =
      2 ^ 16 * b.toNat + (2 ^ 8 * c.toNat + d.toNat) := by
    rw [octet_shiftLeft_or b (by decide) (by rw [hone]; omega), hone]
  apply BitVec.eq_of_toNat_eq
  simp only [quad, and_octet, BitVec.or_assoc]
  rw [octet_shiftLeft_or a (by decide) (by rw [htwo]; omega), htwo, toNat_word]
  simp only [ofBytes]
  omega

end RoomSpeaker
