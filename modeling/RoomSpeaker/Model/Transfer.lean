import RoomSpeaker.Foundation.Memory
import RoomSpeaker.Model.Sock

/-!
# The counters of the stream loops (`sock.cpp`)

`sendall` and `receiveall` once more, with what `Model.Sock` leaves out: the
offset and the remaining length are counters of their own, the calls of `::send`
and `::recv` are counted, the socket's part of the bytes is recorded, and the
receiver's bytes go into a buffer in memory.
-/

namespace RoomSpeaker

open Foundation

/-! ## Sending -/

/-- What `::send` returns when it is handed `length` bytes: it takes no more
than these. -/
def SendOut.result (o : SendOut) (length : Int) : Int := min o.shot length

/-- What a `sendall` leaves: the value it returns, the bytes the socket accepted
in order, and the number of `::send` calls. -/
structure SendallOut where
  ret : Int
  accepted : List Byte
  calls : Nat

/-- One more call in front, in which the socket accepted `bs`. -/
def SendallOut.after (r : SendallOut) (bs : List Byte) : SendallOut :=
  { r with accepted := bs ++ r.accepted, calls := r.calls + 1 }

/-- The loop of `sendall`.  A socket with no result left fails with `EPIPE`. -/
def sendallTurns (buff : List Byte) :
    List SendOut → Int → Int → Nat → SendallOut
  | [], _, length, _ =>
      if length ≤ 0 then ⟨length, [], 0⟩ else ⟨length, [], 1⟩
  | o :: outs, toutnonblock, length, sent =>
      if length ≤ 0 then ⟨length, [], 0⟩
      else
        let shot := o.result length
        if shot ≤ 0 then
          if o.errno = 0 then ⟨length, [], 1⟩
          else if o.errno = eagain then
            if toutnonblock - 1 < 0 then ⟨length, [], 1⟩
            else (sendallTurns buff outs (toutnonblock - 1) length sent).after []
          else ⟨length, [], 1⟩
        else
          (sendallTurns buff outs toutnonblock (length - shot)
            (sent + shot.toNat)).after ((buff.drop sent).take shot.toNat)

/-- `tcp_sock::sendall` of a whole buffer. -/
def sendallRun (buff : List Byte) (tout : Nat) (outs : List SendOut) :
    SendallOut :=
  sendallTurns buff outs ((tout / 10 : Nat) + 1) buff.length 0

/-! ## Receiving -/

/-- What a `receiveall` leaves: the value it returns, the memory, and the number
of `::recv` calls. -/
structure ReceiveallOut where
  ret : Nat
  mem : List Byte
  calls : Nat

/-- The loop of `receiveall`. -/
def receiveallTurns (toreceive got : Nat) (mem : List Byte)
    (sock : List RecvOut) : ReceiveallOut :=
  if toreceive = 0 then ⟨got, mem, 0⟩
  else
    let r := receive toreceive sock
    if r.1 ≤ 0 then ⟨got, mem, 1⟩
    else
      let rest := receiveallTurns (toreceive - r.1.toNat) (got + r.1.toNat)
        (storeAt mem got r.2.1) r.2.2
      { rest with calls := rest.calls + 1 }
termination_by toreceive
decreasing_by
  show toreceive - r.1.toNat < toreceive
  omega

/-- `tcp_sock::receiveall` into the memory at `buff`. -/
def receiveallRun (length : Nat) (mem : List Byte) (sock : List RecvOut) :
    ReceiveallOut :=
  receiveallTurns length 0 mem sock

end RoomSpeaker
