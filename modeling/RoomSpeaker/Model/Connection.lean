import RoomSpeaker.Model.Speaker

/-!
# A client and the stream it receives (`sclient.cpp`, `sock.cpp`)

The socket of a connected client carries frames of one size, as `qsend` sends
them.  The kernel hands their bytes out in pieces, and any `::recv` in between may
fail: `receive` makes 0 of an error and −1 of `EAGAIN`, and neither ends the
connection by itself.

`taken` counts the bytes received on the connection, so it is the place in the
stream where the next receive starts.

`Line` is the client program on connections that bring any bytes.
-/

namespace RoomSpeaker

open Foundation

/-- All bytes that the results of `::recv` hold, whatever fails in between. -/
def inFlight : List RecvOut → List Byte
  | [] => []
  | .data bs :: rest => bs ++ inFlight rest
  | _ :: rest => inFlight rest

/-- A connection's stream: whole frames with a `buf_len` that is not zero, and
results of `::recv` that bring their bytes in order, up to some point. -/
structure FrameStream where
  frames : List (BufHdr × List Byte)
  sock : List RecvOut
  whole : ∀ f ∈ frames, f.2.length = tcpSndLen
  announced : ∀ f ∈ frames, f.1.bufLen ≠ 0
  order : inFlight sock <+: frames.flatMap fun f => f.1.encode ++ f.2

/-- The client program, the results of `::recv` still to come on its connection,
and the number of bytes received on it. -/
structure Conn where
  spk : Speaker
  sock : List RecvOut
  taken : Nat

/-- The program starts with no connection. -/
def Conn.init (chunks : Nat) (tick : BitVec 64) (time : Int) : Conn :=
  ⟨Speaker.init chunks tcpSndLen tick time, [], 0⟩

/-- The inputs of a step of the network thread: the stream of the connection when
`s4connect` succeeds, whether `select` reports the socket, and what
`_check_stream` takes besides the socket. -/
structure ConnIn where
  up : Option FrameStream
  ready : Bool
  time : Int
  tick : BitVec 64
  sends : List SendOut

/-- The same with `recv` on the connection. -/
def Conn.input (s : Conn) (i : ConnIn) : NetIn :=
  ⟨i.up.isSome, i.ready, ⟨s.sock, i.time, i.tick, i.sends⟩⟩

/-- The number of bytes the two receives of `_check_stream` take. -/
def Chunk.takes (pk : Chunk) (sock : List RecvOut) : Nat :=
  (receiveall sizeofBufHdr sock).1.length + (recvFrame pk sock).bufLen

/-- A step of the network thread: a new connection has a new stream, and the
receives take their bytes off it. -/
def Conn.net (s : Conn) (i : ConnIn) : Conn :=
  let t := { s with spk := s.spk.netStep (s.input i) }
  match s.spk.net with
  | .lost =>
      match i.up with
      | some st => { t with sock := st.sock, taken := 0 }
      | none => t
  | .got pk =>
      { t with
        sock := (recvFrame (s.spk.rq.deref pk) s.sock).sock
        taken := s.taken + (s.spk.rq.deref pk).takes s.sock }
  | _ => t

/-! ## Runs -/

/-- A step of one of the threads. -/
inductive ConnOp where
  | net (i : ConnIn)
  | play

def Conn.step (s : Conn) : ConnOp → Conn
  | .net i => s.net i
  | .play => { s with spk := s.spk.playStep }

/-! ## Any stream -/

/-- The client program on connections that may bring anything: the bytes need not
be frames. -/
structure Line where
  spk : Speaker
  sock : List RecvOut

/-- The inputs of a step of the network thread; a new connection comes with all
its results of `::recv`. -/
structure LineIn where
  up : Option (List RecvOut)
  ready : Bool
  time : Int
  tick : BitVec 64
  sends : List SendOut

def Line.net (s : Line) (i : LineIn) : Line :=
  let spk := s.spk.netStep ⟨i.up.isSome, i.ready, ⟨s.sock, i.time, i.tick, i.sends⟩⟩
  match s.spk.net with
  | .lost => ⟨spk, i.up.getD s.sock⟩
  | .got pk => ⟨spk, (recvFrame (s.spk.rq.deref pk) s.sock).sock⟩
  | _ => ⟨spk, s.sock⟩

inductive LineOp where
  | net (i : LineIn)
  | play

def Line.step (s : Line) : LineOp → Line
  | .net i => s.net i
  | .play => { s with spk := s.spk.playStep }

end RoomSpeaker
