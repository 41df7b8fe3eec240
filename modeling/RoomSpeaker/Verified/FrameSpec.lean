import RoomSpeaker.Model.Sclient
import RoomSpeaker.Verified.CircleSpec
import RoomSpeaker.Verified.SockSpec

/-!
# What receiving a frame leaves

## Main results

* `recvFrame_hdr`, `recvFrame_len` — the header is the received bytes over the
  old one, whether or not the receive succeeds; the chunk keeps its length.
* `recvFrame_short`, `recvFrame_payload` — how many payload bytes are received.
* `recvFrame_ok_iff` — the frame is accepted exactly when the socket delivers
  the whole header and as many payload bytes as it announces.
* `recvFrame_frame` — a frame of the full chunk size is received whole and leaves
  the socket at the next one.
* `checkStream_ok`, `checkStream_sock`, `checkStream_at` — what `_check_stream`
  takes over from the receives.
-/

namespace RoomSpeaker

open Foundation

/-- A socket delivers a frame that `_check_stream` accepts into a chunk with
`len` payload bytes: the whole header, and then exactly the announced bytes, or
no announcement. -/
def FrameArrives (len : Nat) (sock : List RecvOut) : Prop :=
  sizeofBufHdr ≤ (delivered sock).length ∧
  ((BufHdr.decode ((delivered sock).take sizeofBufHdr)).bufLen = 0 ∨
    (BufHdr.decode ((delivered sock).take sizeofBufHdr)).bufLen.toInt =
      min len ((delivered sock).length - sizeofBufHdr))

instance (len : Nat) (sock : List RecvOut) :
    Decidable (FrameArrives len sock) :=
  inferInstanceAs (Decidable (_ ∧ _))

/-- The header left in the chunk: the received bytes over the old ones. -/
theorem recvFrame_hdr (pk : Chunk) (sock : List RecvOut) :
    (recvFrame pk sock).chunk.hdr =
      pk.hdr.overlay ((delivered sock).take sizeofBufHdr) := by
  unfold recvFrame
  simp only [receiveall_bytes]
  split
  · rfl
  · split <;> rfl

/-- A whole header replaces the old one. -/
theorem recvFrame_whole {pk : Chunk} {sock : List RecvOut}
    (h : (recvFrame pk sock).whole = true) :
    sizeofBufHdr ≤ (delivered sock).length ∧
      (recvFrame pk sock).chunk.hdr =
        BufHdr.decode ((delivered sock).take sizeofBufHdr) := by
  have hlen := length_receiveall sizeofBufHdr sock
  have hfull : (receiveall sizeofBufHdr sock).1.length = sizeofBufHdr := by
    by_contra hshort
    simp [recvFrame, hshort] at h
  have hle : sizeofBufHdr ≤ (delivered sock).length := by omega
  refine ⟨hle, ?_⟩
  rw [recvFrame_hdr, BufHdr.overlay_full]
  rw [List.length_take]
  omega

/-- Receiving never changes the size of a chunk. -/
theorem recvFrame_len (pk : Chunk) (sock : List RecvOut) :
    (recvFrame pk sock).chunk.len = pk.len := by
  unfold recvFrame
  simp only
  split
  · rfl
  · split
    · have hle := length_receiveall pk.len (receiveall sizeofBufHdr sock).2
      unfold Chunk.len at *
      simp only [List.length_append, List.length_drop]
      omega
    · rfl

theorem recvFrame_locked (pk : Chunk) (sock : List RecvOut) :
    (recvFrame pk sock).chunk.locked = pk.locked := by
  unfold recvFrame
  simp only
  split
  · rfl
  · split <;> rfl

/-- Not more is received than the chunk can hold. -/
theorem recvFrame_bufLen_le (pk : Chunk) (sock : List RecvOut) :
    (recvFrame pk sock).bufLen ≤ pk.len := by
  unfold recvFrame
  simp only
  split
  · exact Nat.zero_le _
  · split
    · have hle := length_receiveall pk.len (receiveall sizeofBufHdr sock).2
      show (receiveall pk.len _).1.length ≤ pk.len
      omega
    · exact Nat.zero_le _

/-- Without a whole header no payload is asked for. -/
theorem recvFrame_short (pk : Chunk) {sock : List RecvOut}
    (h : (delivered sock).length < sizeofBufHdr) :
    (recvFrame pk sock).whole = false ∧ (recvFrame pk sock).bufLen = 0 := by
  have hlen := length_receiveall sizeofBufHdr sock
  have hshort : (receiveall sizeofBufHdr sock).1.length ≠ sizeofBufHdr := by
    omega
  unfold recvFrame
  simp only [if_pos hshort, and_self]

/-- A whole header, and the payload bytes it announces, as far as they fit the
chunk and are delivered. -/
theorem recvFrame_payload (pk : Chunk) {sock : List RecvOut}
    (h : sizeofBufHdr ≤ (delivered sock).length) :
    (recvFrame pk sock).whole = true ∧ (recvFrame pk sock).bufLen =
      if (BufHdr.decode ((delivered sock).take sizeofBufHdr)).bufLen = 0 then 0
      else min pk.len ((delivered sock).length - sizeofBufHdr) := by
  have hlen := length_receiveall sizeofBufHdr sock
  have hfull : (receiveall sizeofBufHdr sock).1.length = sizeofBufHdr := by
    omega
  have hover : pk.hdr.overlay (receiveall sizeofBufHdr sock).1 =
      BufHdr.decode ((delivered sock).take sizeofBufHdr) := by
    rw [BufHdr.overlay_full _ _ hfull, receiveall_bytes]
  have hpay := length_receiveall pk.len (receiveall sizeofBufHdr sock).2
  rw [delivered_receiveall _ _ h, List.length_drop] at hpay
  unfold recvFrame
  simp only [hfull, ne_eq, not_true_eq_false, if_false, hover]
  by_cases hzero : (BufHdr.decode
      ((delivered sock).take sizeofBufHdr)).bufLen = 0
  · simp [hzero]
  · simp only [hzero, not_false_eq_true, if_true, if_false, true_and]
    exact hpay

/-- The frame is accepted exactly when it arrives. -/
theorem recvFrame_ok_iff (pk : Chunk) (sock : List RecvOut) :
    (recvFrame pk sock).ok = true ↔ FrameArrives pk.len sock := by
  unfold Received.ok FrameArrives
  by_cases hhdr : sizeofBufHdr ≤ (delivered sock).length
  · obtain ⟨hwhole, hbuf⟩ := recvFrame_payload pk hhdr
    rw [hwhole, hbuf, (recvFrame_whole hwhole).2, Bool.true_and,
      decide_eq_true_eq]
    by_cases hzero : (BufHdr.decode
        ((delivered sock).take sizeofBufHdr)).bufLen = 0
    · simp [hzero, hhdr]
    · simp only [hzero, if_false, hhdr, true_and, false_or]
      exact eq_comm
  · obtain ⟨hpart, _⟩ := recvFrame_short pk (Nat.lt_of_not_le hhdr)
    simp [hpart, hhdr]

/-- A frame sent with a payload of the chunk's length is received whole, whatever
its header says; it is accepted when the header announces that length.  The
socket goes on with what follows. -/
theorem recvFrame_frame (pk : Chunk) {sock : List RecvOut} {hdr : BufHdr}
    {payload rest : List Byte}
    (hsock : delivered sock = hdr.encode ++ (payload ++ rest))
    (hlen : payload.length = pk.len) (hne : hdr.bufLen ≠ 0) :
    (recvFrame pk sock).chunk.content = (hdr, payload) ∧
      ((recvFrame pk sock).ok = true ↔ hdr.bufLen.toInt = pk.len) ∧
      delivered (recvFrame pk sock).sock = rest := by
  have henc := hdr.length_encode
  have hhdr : (receiveall sizeofBufHdr sock).1 = hdr.encode := by
    rw [receiveall_bytes, hsock, BufHdr.take_encode]
  have hover := pk.hdr.overlay_encode hdr
  have hafter : delivered (receiveall sizeofBufHdr sock).2 =
      payload ++ rest := by
    rw [delivered_receiveall _ _ (by rw [hsock]; simp [henc]), hsock, ← henc,
      List.drop_left]
  have hpay : (receiveall pk.len (receiveall sizeofBufHdr sock).2).1 =
      payload := by
    rw [receiveall_bytes, hafter, ← hlen, List.take_left]
  have hrest : delivered
      (receiveall pk.len (receiveall sizeofBufHdr sock).2).2 = rest := by
    rw [delivered_receiveall _ _ (by rw [hafter]; simp [hlen]), hafter, ← hlen,
      List.drop_left]
  have htail : pk.payload.drop payload.length = [] :=
    List.drop_eq_nil_of_le (Nat.le_of_eq hlen.symm)
  unfold recvFrame
  simp only [hhdr, henc, ne_eq, not_true_eq_false, if_false, hover, hne,
    not_false_eq_true, if_true]
  refine ⟨?_, ?_, hrest⟩
  · show (hdr, (receiveall pk.len _).1 ++
      pk.payload.drop (receiveall pk.len _).1.length) = (hdr, payload)
    rw [hpay, htail, List.append_nil]
  · unfold Received.ok
    show (true && decide (((receiveall pk.len
      (receiveall sizeofBufHdr sock).2).1.length : Int) = hdr.bufLen.toInt)) =
        true ↔ _
    rw [hpay, hlen, Bool.true_and, decide_eq_true_eq]
    exact eq_comm

/-! ## `_check_stream` -/

private theorem onFrame_ok (cli : Sclient) (rq : Circle) (h : BufHdr)
    (bufLen : Nat) (i : StreamIn) (sock : List RecvOut) :
    (cli.onFrame rq h bufLen i sock).ok = true := by
  unfold Sclient.onFrame
  simp only
  split
  · rfl
  · split <;> rfl

/-- `_check_stream` returns whether the frame was received whole. -/
theorem checkStream_ok (cli : Sclient) (rq : Circle) (pk : ChunkRef)
    (i : StreamIn) : (cli.checkStream rq pk i).ok =
      (recvFrame (rq.deref pk) i.recv).ok := by
  unfold Sclient.checkStream
  simp only
  split
  next hok => rw [onFrame_ok, hok]
  next hno => exact (Bool.eq_false_iff.mpr hno).symm

/-- The socket is left where the two receives leave it. -/
theorem checkStream_sock (cli : Sclient) (rq : Circle) (pk : ChunkRef)
    (i : StreamIn) : (cli.checkStream rq pk i).sock =
      (recvFrame (rq.deref pk) i.recv).sock := by
  unfold Sclient.checkStream Sclient.onFrame
  simp only
  split
  · split
    · rfl
    · split <;> rfl
  · rfl

/-- Acting on a frame writes no chunk. -/
private theorem onFrame_queue (cli : Sclient) (rq : Circle) (h : BufHdr)
    (bufLen : Nat) (i : StreamIn) (sock : List RecvOut) :
    (cli.onFrame rq h bufLen i sock).rq.queue = rq.queue := by
  unfold Sclient.onFrame
  simp only
  split
  · rfl
  · split
    · dsimp only
      split
      · exact Circle.forceOptim_queue _ _
      · rfl
    · rfl

/-- The slot is left with the chunk that was received. -/
theorem checkStream_at (cli : Sclient) {rq : Circle} {j : Nat}
    (hj : j < rq.queue.length) (i : StreamIn) :
    (cli.checkStream rq (.slot j) i).rq.at' j =
      (recvFrame (rq.at' j) i.recv).chunk := by
  have hcells : (cli.checkStream rq (.slot j) i).rq.queue =
      (rq.setAt j (recvFrame (rq.at' j) i.recv).chunk).queue := by
    unfold Sclient.checkStream
    simp only
    split
    · exact onFrame_queue _ _ _ _ _ _
    · rfl
  rw [Circle.at_congr hcells, Circle.at_set_self rq j _ hj]

end RoomSpeaker
