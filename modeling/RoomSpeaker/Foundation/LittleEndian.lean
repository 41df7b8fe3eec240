import Mathlib.Algebra.Group.Int.Defs
import Mathlib.Algebra.Group.Nat.Defs
import Mathlib.Data.List.Basic

/-!
# Little-endian integers as byte strings

The layout of a packed record on a little-endian host: an integer field of `n`
bytes is stored least significant byte first, and fields follow each other
without padding.  A field is read back by cutting its width off the front of
the bytes that are left.
-/

namespace RoomSpeaker.Foundation

/-- One octet of a byte stream. -/
abbrev Byte := BitVec 8

/-- The `n` low bytes of `v`, least significant first. -/
def toBytes : Nat → Nat → List Byte
  | 0, _ => []
  | n + 1, v => BitVec.ofNat 8 v :: toBytes n (v / 256)

/-- The value of a byte string read least significant byte first. -/
def ofBytes : List Byte → Nat
  | [] => 0
  | b :: bs => b.toNat + 256 * ofBytes bs

@[simp] theorem length_toBytes (n v : Nat) : (toBytes n v).length = n := by
  induction n generalizing v with
  | zero => rfl
  | succ n ih => simp only [toBytes, List.length_cons, ih]

/-- Reading back a stored field loses only what did not fit its width. -/
@[simp] theorem ofBytes_toBytes (n v : Nat) :
    ofBytes (toBytes n v) = v % 256 ^ n := by
  induction n generalizing v with
  | zero => simp [toBytes, ofBytes, Nat.mod_one]
  | succ n ih =>
      have hpow : 256 ^ (n + 1) = 256 * 256 ^ n := Nat.pow_succ'
      rw [hpow, Nat.mod_mul]
      simp only [toBytes, ofBytes, ih, BitVec.toNat_ofNat]

/-- Storing the value of a byte string gives the byte string. -/
@[simp] theorem toBytes_ofBytes (bs : List Byte) :
    toBytes bs.length (ofBytes bs) = bs := by
  induction bs with
  | nil => rfl
  | cons b bs ih =>
      have hlt := b.isLt
      have hlow : BitVec.ofNat 8 (b.toNat + 256 * ofBytes bs) = b := by
        apply BitVec.eq_of_toNat_eq
        rw [BitVec.toNat_ofNat]
        omega
      have hhigh : (b.toNat + 256 * ofBytes bs) / 256 = ofBytes bs := by omega
      simp only [List.length_cons, ofBytes, toBytes, hlow, hhigh, ih]

theorem ofBytes_lt (bs : List Byte) : ofBytes bs < 256 ^ bs.length := by
  induction bs with
  | nil => decide
  | cons b bs ih =>
      have hlt := b.isLt
      rw [List.length_cons, Nat.pow_succ', ofBytes]
      omega

/-- A field at the front of a record is cut off exactly. -/
@[simp] theorem take_toBytes_append (n v : Nat) (rest : List Byte) :
    (toBytes n v ++ rest).take n = toBytes n v := by
  rw [List.take_left' (length_toBytes n v)]

@[simp] theorem drop_toBytes_append (n v : Nat) (rest : List Byte) :
    (toBytes n v ++ rest).drop n = rest := by
  rw [List.drop_left' (length_toBytes n v)]

end RoomSpeaker.Foundation
