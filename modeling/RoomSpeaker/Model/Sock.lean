import RoomSpeaker.Foundation.LittleEndian

/-!
# Stream sockets (`sock.cpp`, `class tcp_sock`)

The kernel decides how a byte stream is cut into the results of `::recv` and
`::send`.  A socket is therefore the list of results still to come; the calls
below consume it.  When the list is used up the peer is gone.
-/

namespace RoomSpeaker

open Foundation

/-- One result of `::recv`: bytes that are ready, `EAGAIN`, or another error.
No bytes means that the peer closed the connection. -/
inductive RecvOut where
  | data (bs : List Byte)
  | again
  | error
  deriving DecidableEq, Repr

/-- `tcp_sock::receive`: the value it returns, the bytes it stored, and the
results left.  Bytes that do not fit the buffer stay ready. -/
def receive (length : Nat) :
    List RecvOut → Int × List Byte × List RecvOut
  | [] => (0, [], [])
  | .data bs :: rest =>
      if bs.length ≤ length then (bs.length, bs, rest)
      else (length, bs.take length, .data (bs.drop length) :: rest)
  | .again :: rest => (-1, [], rest)
  | .error :: rest => (0, [], rest)

/-- The loop of `receiveall`.  Each turn stores at least one byte, so `length`
turns are enough; `got` holds the bytes stored so far. -/
def receiveallLoop : Nat → Nat → List Byte → List RecvOut →
    List Byte × List RecvOut
  | 0, _, got, sock => (got, sock)
  | turns + 1, toreceive, got, sock =>
      if toreceive = 0 then (got, sock)
      else
        let r := receive toreceive sock
        if r.1 ≤ 0 then (got, r.2.2)
        else receiveallLoop turns (toreceive - r.2.1.length) (got ++ r.2.1) r.2.2

/-- `tcp_sock::receiveall`: the bytes stored, whose number is the value it
returns, and the results left. -/
def receiveall (length : Nat) (sock : List RecvOut) :
    List Byte × List RecvOut :=
  receiveallLoop length length [] sock

/-- One result of `::send`: its return value and `errno`. -/
structure SendOut where
  shot : Int
  errno : Nat
  deriving DecidableEq, Repr

/-- `EAGAIN`. -/
def eagain : Nat := 11

/-- The loop of `sendall`; the bytes still to send are returned.  A socket with
no result left fails with `EPIPE`. -/
def sendallLoop : List SendOut → Int → List Byte → List Byte
  | _, _, [] => []
  | [], _, buff => buff
  | o :: outs, toutnonblock, buff =>
      if o.shot ≤ 0 then
        if o.errno = eagain then
          if toutnonblock - 1 < 0 then buff
          else sendallLoop outs (toutnonblock - 1) buff
        else buff
      else sendallLoop outs toutnonblock (buff.drop o.shot.toNat)

/-- `tcp_sock::sendall` with its default time-out: the bytes that were not
sent, whose number is the value it returns. -/
def sendall (buff : List Byte) (outs : List SendOut) : List Byte :=
  sendallLoop outs (8000 / 10 + 1) buff

end RoomSpeaker
