import RoomSpeaker.Foundation.Run
import RoomSpeaker.Verified.SpeakerSpec

/-!
# The lengths the player plays (`player::_play`)

`_play` hands the sound device `buf_len` bytes of a chunk's payload and trusts
the header for the number.  An accepted frame has a `buf_len` that was counted;
a rejected one keeps whatever the peer announced, and its chunk stays queued.

## Main results

* `playsInBounds_of_headersFit` — every call of `_ao->play` stays inside the
  payload when no rejected frame leaves a header that announces more than a
  payload, or a negative number of bytes.
-/

namespace RoomSpeaker

open Foundation

/-! ## Lengths that fit -/

/-- The header's length is that of a part of the payload. -/
def Chunk.Fits (k : Chunk) : Prop :=
  0 ≤ k.hdr.bufLen.toInt ∧ k.hdr.bufLen.toInt ≤ k.len

instance (k : Chunk) : Decidable k.Fits :=
  inferInstanceAs (Decidable (_ ∧ _))

theorem Chunk.fits_congr {k k' : Chunk} (h : k'.content = k.content)
    (hk : k.Fits) : k'.Fits := by
  obtain ⟨hhdr, hpayload⟩ := Prod.mk.inj h
  unfold Chunk.Fits Chunk.len at *
  rw [hhdr, hpayload]
  exact hk

/-- A played chunk has length zero. -/
theorem Chunk.fits_clear (k : Chunk) : k.clear.Fits :=
  ⟨Int.le_refl 0, Int.natCast_nonneg k.len⟩

theorem Chunk.fits_new (sz : Nat) : (Chunk.new sz).Fits :=
  ⟨Int.le_refl 0, Int.natCast_nonneg _⟩

/-- The chunk a receive leaves when the frame is rejected, as far as its length
goes: the received bytes of a header over the old one. -/
def Chunk.overlaid (k : Chunk) (sock : List RecvOut) : Chunk :=
  { k with hdr := k.hdr.overlay ((delivered sock).take sizeofBufHdr) }

/-- A received chunk fits exactly when the header left in it does. -/
theorem fits_recvFrame_iff (k : Chunk) (sock : List RecvOut) :
    (recvFrame k sock).chunk.Fits ↔ (k.overlaid sock).Fits := by
  unfold Chunk.Fits
  rw [recvFrame_hdr, recvFrame_len]
  rfl

/-- An accepted chunk fits: its length was counted while it was received. -/
theorem fits_of_frameArrives {k : Chunk} {sock : List RecvOut}
    (h : FrameArrives k.len sock) : (recvFrame k sock).chunk.Fits := by
  have hok := (recvFrame_ok_iff k sock).mpr h
  unfold Received.ok at hok
  rw [Bool.and_eq_true] at hok
  have hlen := of_decide_eq_true hok.2
  have hle := recvFrame_bufLen_le k sock
  have hsize := recvFrame_len k sock
  constructor
  · omega
  · omega

/-! ## Runs of the two threads -/

/-- The chunk whose payload and length are handed to `_ao->play`, if this step
makes the call. -/
def Speaker.aoPlay (s : Speaker) : SpkOp → Option Chunk
  | .play =>
      match s.play with
      | .hold pk =>
          if (s.rq.deref pk).hdr.bufLen ≠ 0 then some (s.rq.deref pk) else none
      | _ => none
  | .net _ => none

/-- `_ao->play` gets a positive length inside the payload. -/
def Speaker.PlaysInBounds (s : Speaker) (op : SpkOp) : Prop :=
  ∀ k ∈ s.aoPlay op, 0 < k.hdr.bufLen.toInt ∧ k.hdr.bufLen.toInt ≤ k.len

instance (s : Speaker) (op : SpkOp) : Decidable (s.PlaysInBounds op) :=
  inferInstanceAs (Decidable (∀ k ∈ s.aoPlay op, _))

/-- A frame that does not arrive whole leaves a header whose length fits. -/
def Speaker.HeadersFit (s : Speaker) (op : SpkOp) : Prop :=
  ∀ i ∈ op.input, ∀ j ∈ s.net.receiving,
    ¬ FrameArrives (s.rq.at' j).len i.stream.recv →
      ((s.rq.at' j).overlaid i.stream.recv).Fits

instance (s : Speaker) (op : SpkOp) : Decidable (s.HeadersFit op) :=
  inferInstanceAs (Decidable (∀ i ∈ op.input, _))

/-- Every queued chunk has a length that fits. -/
def Speaker.QueueFits (s : Speaker) : Prop :=
  ∀ j ∈ s.rq.queued, (s.rq.at' j).Fits

/-- While the headers fit, every chunk does; and the player never holds the
scrap chunk. -/
structure FitsInv (s : Speaker) : Prop where
  threads : HeldInv s
  slots : ∀ j, (s.rq.at' j).Fits
  pool : ∀ r, s.play.holds = some r → ∃ j, r = .slot j

theorem fitsInv_init (n sz : Nat) (tick : BitVec 64) (time : Int)
    (hn : 0 < n) : FitsInv (Speaker.init n sz tick time) where
  threads := heldInv_init n sz tick time hn
  slots := fun j => by
    by_cases hj : j < n
    · have hnew : (Speaker.init n sz tick time).rq.at' j = Chunk.new sz :=
        Circle.at_reserve sz hj
      rw [hnew]
      exact Chunk.fits_new sz
    · have hnone : (Speaker.init n sz tick time).rq.at' j = Chunk.new 0 := by
        show (List.replicate n (Chunk.new sz)).getD j default = Chunk.new 0
        simp [List.getD, hj]
        rfl
      rw [hnone]
      exact Chunk.fits_new 0
  pool := fun r hr => by simp [Speaker.init, PlayPc.holds] at hr

/-- The player only ever takes slots. -/
private theorem pool_step {s : Speaker} (h : FitsInv s) (op : SpkOp)
    (r : ChunkRef) (hr : (s.step op).play.holds = some r) :
    ∃ j, r = .slot j := by
  cases moves_step s h.threads.held.cursors op with
  | calm hdrop hnet hplay hgot => exact h.pool r (hplay ▸ hr)
  | feed hroom hfree hrq hloop hnet hplay => exact h.pool r (hplay ▸ hr)
  | scrap hrq hloop hnet hplay => exact h.pool r (hplay ▸ hr)
  | take hne hfree hrq hnet hidle hplay =>
      rw [hplay] at hr
      exact ⟨s.rq.geti, by simpa [PlayPc.holds] using hr.symm⟩
  | receive hgot hrq hnet hdone hplay => exact h.pool r (hplay ▸ hr)
  | played hhold hrq hnet hplay =>
      apply h.pool r
      rw [hhold]
      exact hplay.symm.trans hr
  | freed hheld hrq hnet hplay => exact h.pool r (hplay ▸ hr)
  | returned hheld hrq hnet hplay =>
      rw [hplay] at hr
      simp at hr

theorem fitsInv_step {s : Speaker} (h : FitsInv s) (op : SpkOp)
    (hfit : s.HeadersFit op) : FitsInv (s.step op) := by
  refine ⟨heldInv_step h.threads op, ?_, pool_step h op⟩
  intro j
  rcases deref_step h.threads.held.cursors op (.slot j) with
    hsame | ⟨i, rfl, hgot, hrecv⟩ | ⟨_, hclear⟩
  · exact Chunk.fits_congr hsame (h.slots j)
  · show Chunk.Fits (((s.step (.net i)).rq).deref (.slot j))
    rw [hrecv]
    by_cases harrives : FrameArrives (s.rq.at' j).len i.stream.recv
    · exact fits_of_frameArrives harrives
    · rw [fits_recvFrame_iff]
      exact hfit i rfl j (NetPc.mem_receiving.mpr hgot) harrives
  · show Chunk.Fits ((s.step op).rq.deref (.slot j))
    rw [hclear]
    exact Chunk.fits_clear _

theorem FitsInv.playsInBounds {s : Speaker} (h : FitsInv s) (op : SpkOp) :
    s.PlaysInBounds op := by
  intro k hk
  cases op with
  | net i => simp [Speaker.aoPlay] at hk
  | play =>
      cases hpc : s.play with
      | hold pk =>
          obtain ⟨j, rfl⟩ := h.pool pk (by rw [hpc]; rfl)
          simp only [Speaker.aoPlay, hpc] at hk
          split at hk
          next hne =>
            obtain rfl : s.rq.at' j = k := by
              simpa [Circle.deref] using hk
            have hfits := h.slots j
            refine ⟨?_, hfits.2⟩
            have hzero : (s.rq.at' j).hdr.bufLen.toInt ≠ 0 := by
              intro heq
              exact hne (BitVec.eq_of_toInt_eq heq)
            have hnonneg := hfits.1
            omega
          next => simp at hk
      | _ => simp [Speaker.aoPlay, hpc] at hk

/-- The chunk of a rejected frame is queued at once. -/
private theorem headersFit_of_queueFits {s : Speaker} (h : FitsInv s)
    (op : SpkOp) (hqueue : (s.step op).QueueFits) : s.HeadersFit op := by
  intro i hop j hrecv _
  have hgot := NetPc.mem_receiving.mp hrecv
  obtain rfl := SpkOp.mem_input.mp hop
  obtain ⟨hmem, hat⟩ := receive_step h.threads hgot i
  have hfits := hqueue j hmem
  rw [hat] at hfits
  exact (fits_recvFrame_iff _ _).mp hfits

/-! ## When the player stays inside the payload -/

/--
**Rejected headers decide what the player reads.**

In any run of the two threads, over any bytes, segmentation and disconnects: all
queued chunks have lengths that fit iff every frame that is rejected leaves a
header whose length fits, and then every call of `_ao->play` gets a positive
length inside the payload.
-/
theorem playsInBounds_of_headersFit (n sz : Nat) (tick : BitVec 64) (time : Int)
    (ops : List SpkOp) (hn : 0 < n) :
    (Throughout Speaker.step Speaker.QueueFits (Speaker.init n sz tick time)
        ops ↔
      Along Speaker.step Speaker.HeadersFit (Speaker.init n sz tick time)
        ops) ∧
    (Along Speaker.step Speaker.HeadersFit (Speaker.init n sz tick time) ops →
      Along Speaker.step Speaker.PlaysInBounds (Speaker.init n sz tick time)
        ops) := by
  have hinit := fitsInv_init n sz tick time hn
  constructor
  · exact throughout_iff_along (fun s op h hfit => fitsInv_step h op hfit)
      (fun s h j _ => h.slots j) (fun s op h => headersFit_of_queueFits h op)
      ops _ hinit
  · exact along_of_inv (fun s op h hfit => fitsInv_step h op hfit)
      (fun s op h _ => h.playsInBounds op) ops _ hinit

/-- The connection breaks after a header that announces one byte: the chunk is
played, and this stays inside its payload. -/
theorem playsInBounds_short_payload :
    Along Speaker.step Speaker.PlaysInBounds (Speaker.init 1 tcpSndLen 0 0)
      (receiveThenPlay [.data { BufHdr.zero with bufLen := 1 }.encode] ++
        [.play]) :=
  (playsInBounds_of_headersFit 1 tcpSndLen 0 0 _ (by decide)).2
    (by decide +kernel)

/-- The connection breaks after a header that announces 5000 bytes: the player
reads them from a payload of 4096. -/
theorem playsInBounds_fails_on_announcement :
    ¬ Along Speaker.step Speaker.PlaysInBounds (Speaker.init 1 tcpSndLen 0 0)
      (receiveThenPlay [.data { BufHdr.zero with bufLen := 5000 }.encode] ++
        [.play]) := by
  decide +kernel

end RoomSpeaker
