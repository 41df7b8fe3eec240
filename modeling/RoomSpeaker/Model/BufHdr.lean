import RoomSpeaker.Foundation.LittleEndian

/-!
# The play-buffer header (`srvq.h`)

`BufHdr` is the packed record in front of every chunk.  It travels both ways:
the server sends it ahead of a chunk's payload, and a client sends it alone as
its report.  The integer fields are bit vectors of the declared widths; `bufLen`
is an `int` and is read through `BitVec.toInt`.

Both programs receive a header straight over an older one, so a short receive
leaves a mixture of the two.  `overlay` is that mixture.
-/

namespace RoomSpeaker

open Foundation

/-! ## Constants -/

def oneSec : Nat := 1000000
def qosTo : Nat := 250000
def syncData : BitVec 8 := 1
def aliveData : BitVec 8 := 2
def resetAll : BitVec 8 := 3
def tcpSndLen : Nat := 4096
def sampleAo : Nat := 44100
def cliSyncPercent : Int := 50
def qAlmostEmpty : Nat := 4
def maxRequeInterval : Int := 30
def synchedDelta : Int := 4

/-! ## The record -/

/-- Play buffer header, `__attribute__((packed))`. -/
structure BufHdr where
  frmSig : BitVec 8
  curSeq : BitVec 32
  isPilot : Bool
  cliPing : BitVec 64
  srvTick : BitVec 64
  pilotPing : BitVec 64
  pilotSeq : BitVec 32
  cliQlen : BitVec 16
  cliQsize : BitVec 16
  cliQoptim : BitVec 16
  pilotQPerc : BitVec 16
  bufLen : BitVec 32
  aoRate : BitVec 16
  deriving DecidableEq, Repr

/-- `sizeof(BufHdr)`. -/
def sizeofBufHdr : Nat := 48

/-- A header of zero bytes, as `memset` leaves it. -/
def BufHdr.zero : BufHdr :=
  ⟨0, 0, false, 0, 0, 0, 0, 0, 0, 0, 0, 0, 0⟩

instance : Inhabited BufHdr := ⟨BufHdr.zero⟩

/-- The header's bytes in memory and on the wire. -/
def BufHdr.encode (h : BufHdr) : List Byte :=
  toBytes 1 h.frmSig.toNat ++ (toBytes 4 h.curSeq.toNat ++
  (toBytes 1 h.isPilot.toNat ++ (toBytes 8 h.cliPing.toNat ++
  (toBytes 8 h.srvTick.toNat ++ (toBytes 8 h.pilotPing.toNat ++
  (toBytes 4 h.pilotSeq.toNat ++ (toBytes 2 h.cliQlen.toNat ++
  (toBytes 2 h.cliQsize.toNat ++ (toBytes 2 h.cliQoptim.toNat ++
  (toBytes 2 h.pilotQPerc.toNat ++ (toBytes 4 h.bufLen.toNat ++
  toBytes 2 h.aoRate.toNat)))))))))))

/-- Reads the fields one after the other.  A `bool` byte counts as set when it
is not zero. -/
def BufHdr.decode (b0 : List Byte) : BufHdr :=
  let b1 := b0.drop 1
  let b2 := b1.drop 4
  let b3 := b2.drop 1
  let b4 := b3.drop 8
  let b5 := b4.drop 8
  let b6 := b5.drop 8
  let b7 := b6.drop 4
  let b8 := b7.drop 2
  let b9 := b8.drop 2
  let b10 := b9.drop 2
  let b11 := b10.drop 2
  let b12 := b11.drop 4
  { frmSig := BitVec.ofNat 8 (ofBytes (b0.take 1))
    curSeq := BitVec.ofNat 32 (ofBytes (b1.take 4))
    isPilot := decide (ofBytes (b2.take 1) ≠ 0)
    cliPing := BitVec.ofNat 64 (ofBytes (b3.take 8))
    srvTick := BitVec.ofNat 64 (ofBytes (b4.take 8))
    pilotPing := BitVec.ofNat 64 (ofBytes (b5.take 8))
    pilotSeq := BitVec.ofNat 32 (ofBytes (b6.take 4))
    cliQlen := BitVec.ofNat 16 (ofBytes (b7.take 2))
    cliQsize := BitVec.ofNat 16 (ofBytes (b8.take 2))
    cliQoptim := BitVec.ofNat 16 (ofBytes (b9.take 2))
    pilotQPerc := BitVec.ofNat 16 (ofBytes (b10.take 2))
    bufLen := BitVec.ofNat 32 (ofBytes (b11.take 4))
    aoRate := BitVec.ofNat 16 (ofBytes (b12.take 2)) }

@[simp] theorem BufHdr.length_encode (h : BufHdr) :
    h.encode.length = sizeofBufHdr := by
  simp [BufHdr.encode, sizeofBufHdr]

private theorem ofNat_mod_width (w n : Nat) (v : BitVec w)
    (hw : 256 ^ n = 2 ^ w) : BitVec.ofNat w (v.toNat % 256 ^ n) = v := by
  rw [hw, Nat.mod_eq_of_lt v.isLt, BitVec.ofNat_toNat, BitVec.setWidth_eq]

private theorem take_toBytes (n v : Nat) :
    (toBytes n v).take n = toBytes n v := by
  rw [List.take_of_length_le (by simp)]

/-- A header survives the wire. -/
@[simp] theorem BufHdr.decode_encode (h : BufHdr) :
    BufHdr.decode h.encode = h := by
  have hbool : decide (h.isPilot.toNat % 256 ^ 1 ≠ 0) = h.isPilot := by
    cases h.isPilot <;> rfl
  simp only [BufHdr.decode, BufHdr.encode, take_toBytes_append,
    drop_toBytes_append, take_toBytes, ofBytes_toBytes, hbool]
  simp only [ofNat_mod_width 8 1 _ rfl, ofNat_mod_width 16 2 _ rfl,
    ofNat_mod_width 32 4 _ rfl, ofNat_mod_width 64 8 _ rfl]

/-- What is left in memory after `bs` was received over the header `h`: the
received bytes in front, the old ones behind. -/
def BufHdr.overlay (h : BufHdr) (bs : List Byte) : BufHdr :=
  BufHdr.decode (bs ++ h.encode.drop bs.length)

/-- A complete receive leaves nothing of the old header. -/
theorem BufHdr.overlay_full (h : BufHdr) (bs : List Byte)
    (hlen : bs.length = sizeofBufHdr) : h.overlay bs = BufHdr.decode bs := by
  rw [BufHdr.overlay, List.drop_eq_nil_of_le (by simp [hlen]), List.append_nil]

/-- A header that arrives whole takes the place of the old one. -/
theorem BufHdr.overlay_encode (h new : BufHdr) : h.overlay new.encode = new := by
  rw [BufHdr.overlay_full _ _ new.length_encode, BufHdr.decode_encode]

theorem BufHdr.encode_ne_nil (h : BufHdr) : h.encode ≠ [] := by
  intro hnil
  have hlen := h.length_encode
  rw [hnil] at hlen
  exact absurd hlen (by decide)

/-- The header in front of a frame. -/
theorem BufHdr.take_encode (h : BufHdr) (rest : List Byte) :
    (h.encode ++ rest).take sizeofBufHdr = h.encode := by
  rw [← h.length_encode, List.take_left]

/-- A receive that brought nothing leaves the old header. -/
@[simp] theorem BufHdr.overlay_nil (h : BufHdr) : h.overlay [] = h := by
  simp [BufHdr.overlay]

end RoomSpeaker
