import RoomSpeaker.Foundation.LittleEndian
import RoomSpeaker.Foundation.Memory
import RoomSpeaker.Model.BufHdr

/-!
# The Android output (`tinyauan.h`, `tinyauan.cpp`)

`AoCls::play` cuts the audio it is given into pieces, copies each into the next
slot of `sbuf` and hands the slot to the buffer queue of OpenSL ES.  The queue
plays its buffers first in, first out, while `play` runs and between its calls.

A step is either the end of one queued buffer or what `play` does up to its next
look at the queue, its next copy or its next call of `Enqueue`.
-/

namespace RoomSpeaker

open Foundation

/-- `SL_BUFFERS`. -/
def slBuffers : Nat := 8

/-- A buffer in the queue: its place in `sbuf`, its size, and the audio that was
in it when it was enqueued. -/
structure Queued where
  off : Nat
  size : Nat
  audio : List Byte
  deriving DecidableEq, Repr

/-- Where `play` is: `idle` outside of a call; otherwise with `pb`, `buf_loc`
and `len`. -/
inductive AoPc where
  | idle
  | waiting (pb : List Byte)
  | filling (pb : List Byte) (bufLoc len : Nat)
  | copying (pb : List Byte) (bufLoc len : Nat)
  | enqueuing (pb : List Byte) (bufLoc len : Nat)
  deriving DecidableEq, Repr

/-- `AoCls`, with the buffer queue; `asked` and `pieces` record what the current
or the latest call was given and what it has enqueued. -/
structure AoCls where
  buffers : Nat
  buffSz : Nat
  sbuf : List Byte
  sbuffCount : Nat
  queue : List Queued
  pc : AoPc
  asked : List Byte
  pieces : List (List Byte)
  deriving DecidableEq, Repr

namespace AoCls

/-- `AoCls::init_ao`; nothing is known of the fresh memory. -/
def initAo (fresh : Nat → Byte) : AoCls where
  buffers := slBuffers
  buffSz := tcpSndLen
  sbuf := (List.range (slBuffers * tcpSndLen)).map fresh
  sbuffCount := 0
  queue := []
  pc := .idle
  asked := []
  pieces := []

/-- `to_copy`. -/
def toCopy (s : AoCls) (len : Nat) : Nat := if len > s.buffSz then s.buffSz else len

/-- `_buffers - state.count`, a difference of unsigned numbers, as a truth
value. -/
def hasRoom (s : AoCls) : Bool :=
  decide (((s.buffers : Int) - s.queue.length) % 2 ^ 64 ≠ 0)

/-- What `play` does next. -/
def turn (s : AoCls) : AoCls :=
  match s.pc with
  | .idle => s
  | .waiting pb =>
      if s.queue.length ≠ 0 then s else { s with pc := .filling pb 0 pb.length }
  | .filling pb bufLoc len =>
      if len = 0 then { s with pc := .idle }
      else if s.hasRoom then { s with pc := .copying pb bufLoc len }
      else s
  | .copying pb bufLoc len =>
      { s with
        sbuf := storeAt s.sbuf s.sbuffCount (readAt pb bufLoc (s.toCopy len))
        pc := .enqueuing pb bufLoc len }
  | .enqueuing pb bufLoc len =>
      let n := s.toCopy len
      let audio := readAt s.sbuf s.sbuffCount n
      { s with
        queue := s.queue ++ [⟨s.sbuffCount, n, audio⟩]
        pieces := s.pieces ++ [audio]
        sbuffCount := (s.sbuffCount + s.buffSz) % (s.buffers * s.buffSz)
        pc := .filling pb (bufLoc + n) (len - n) }

/-! ## Runs -/

/-- The oldest buffer has been played, `play` is called, or the call goes on. -/
inductive Ev where
  | drained
  | play (pb : List Byte)
  | turn

/-- The player calls `play` again only when the last call has returned. -/
def step (s : AoCls) : Ev → AoCls
  | .drained => { s with queue := s.queue.tail }
  | .play pb =>
      if s.pc = .idle then
        { s with pc := .waiting pb, asked := pb, pieces := [] }
      else s
  | .turn => s.turn

end AoCls

end RoomSpeaker
