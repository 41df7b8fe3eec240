import RoomSpeaker.Model.TcpSrv

/-!
# The server program (`srv/main.cpp`, `pipein.cpp`)

The main loop reads the audio pipe into one chunk, numbers the chunk when the
read filled it, sends it to every client and serves the clients.  The chunk is
used again for the next read.

The bytes read, the clock and the sockets are inputs.  The pacing of the loop
(the PID controller and `usleep`) and the byte rate it prints are left out.
-/

namespace RoomSpeaker

open Foundation

/-- `CPipeIn::peek`: its return value and the buffer.  `none` is an error; a pipe
with nothing to read brings no bytes. -/
def peek (buff : List Byte) : Option (List Byte) → Int × List Byte
  | none => (-1, buff)
  | some bs =>
      let got := bs.take buff.length
      (got.length, got ++ buff.drop got.length)

/-- The variables of `main`: the server, `_chunk`, `frm` (an `int`, kept as its
bits) and `__alive`. -/
structure Server where
  srv : TcpSrv
  chunk : Chunk
  frm : BitVec 32
  alive : Bool

/-- The variables before the loop. -/
def Server.init : Server := ⟨TcpSrv.init, Chunk.new tcpSndLen, 0, true⟩

/-- The inputs of one turn of the loop. -/
structure LoopIn where
  read : Option (List Byte)
  t1 : BitVec 64
  tick : Ip → BitVec 64
  sends : Ip → List SendOut
  pool : PoolIn

/-- `_chunk` after `peek`. -/
def Server.fill (s : Server) (read : Option (List Byte)) : Server :=
  let r := peek s.chunk.payload read
  { s with
    chunk :=
      { s.chunk with
        hdr := { s.chunk.hdr with bufLen := BitVec.ofInt 32 r.1 }
        payload := r.2 } }

/-- A chunk that was filled gets its signature, its rate and the next number;
another one keeps those of the chunk before. -/
def Server.number (s : Server) : Server :=
  if s.chunk.hdr.bufLen.toInt = s.chunk.len then
    let frm := s.frm + 1
    { s with
      chunk :=
        { s.chunk with
          hdr :=
            { s.chunk.hdr with
              frmSig := aliveData
              aoRate := BitVec.ofNat 16 sampleAo
              curSeq := frm } }
      frm := frm }
  else s

/-- The first half of a turn: the pipe is read and the chunk is sent.  The flag
says whether the turn goes on to `pool`. -/
def Server.send (s : Server) (i : LoopIn) : Server × List Frame × Bool :=
  let s := s.fill i.read
  if s.chunk.hdr.bufLen = -1 then ({ s with alive := false }, [], false)
  else if s.chunk.hdr.bufLen = 0 then (s, [], false)
  else
    let s := s.number
    let q := s.srv.qsend 0 ⟨s.chunk, i.t1, i.tick, i.sends⟩
    ({ s with srv := q.srv, chunk := q.chunk }, q.frames, true)

/-- The second half of a turn: `pool`, which ends the program when `select`
fails. -/
def Server.serve (s : Server) (i : PoolIn) : Server :=
  { s with srv := (s.srv.pool i).1, alive := s.alive && i.selectErr.isNone }

/-- One turn of the loop, and the frames it sends. -/
def Server.turn (s : Server) (i : LoopIn) : Server × List Frame :=
  if s.alive then
    match s.send i with
    | (s, frames, true) => (s.serve i.pool, frames)
    | (s, frames, false) => (s, frames)
  else (s, [])

/-- The bytes of these frames that went to one client. -/
def bytesTo (ip : Ip) (frames : List Frame) : List Byte :=
  (frames.filter fun f => decide (f.ip = ip)).flatMap Frame.sent

/-! ## Runs -/

def Server.step (s : Server) (i : LoopIn) : Server := (s.turn i).1

/-- The bytes a turn sends to one client. -/
def Server.sentTo (ip : Ip) (s : Server) (i : LoopIn) : List Byte :=
  bytesTo ip (s.turn i).2

end RoomSpeaker
