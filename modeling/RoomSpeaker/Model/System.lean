import Mathlib.Logic.Function.Basic
import RoomSpeaker.Model.Server
import RoomSpeaker.Model.Speaker

/-!
# The server and its speakers

One server program and a client program at every address, joined by TCP
connections.  What a program receives is what the other one sent: the bytes in
flight, cut into results of `::recv` as the kernel likes.  The sockets block, so a
receive comes up short only when the connection is gone.

Any step of any program may come next.  A client that never makes a step is one
that is not there, so a run has any number of clients.
-/

namespace RoomSpeaker

open Foundation

/-- Bytes in flight, cut into the results of `::recv`.  What the cuts leave over
does not arrive before the connection ends. -/
def segments : List Nat → List Byte → List RecvOut
  | [], _ => []
  | n :: ns, bs => .data (bs.take n) :: segments ns (bs.drop n)

/-- A client program and its connection: whether the server has accepted it, and
the bytes in flight each way. -/
structure Node where
  spk : Speaker
  linked : Bool
  toCli : List Byte
  toSrv : List Byte

/-- The programs start with no connection. -/
def Node.init (chunks : Nat) (tick : BitVec 64) (time : Int) : Node :=
  ⟨Speaker.init chunks tcpSndLen tick time, false, [], []⟩

/-! ## The client's end -/

/-- The two receives of `_check_stream` got less than they asked for. -/
def Received.short (r : Received) : Bool :=
  !r.whole || (decide (r.chunk.hdr.bufLen ≠ 0) && decide (r.bufLen ≠ r.chunk.len))

/-- A step of the network thread, with its `recv` on the connection. -/
def Node.net (n : Node) (i : NetIn) (cuts : List Nat) : Node :=
  let i := { i with stream := { i.stream with recv := segments cuts n.toCli } }
  let t := { n with spk := n.spk.netStep i }
  match n.spk.net with
  | .lost =>
      if i.up then { t with linked := false, toCli := [], toSrv := [] } else t
  | .got pk =>
      let r := recvFrame (n.spk.rq.deref pk) i.stream.recv
      if r.short then { t with linked := false, toCli := [] }
      else { t with toCli := n.toCli.drop (sizeofBufHdr + r.bufLen) }
  | .report pk =>
      { t with
        toSrv := n.toSrv ++
          (n.spk.cli.sendQos (n.spk.rq.deref pk).hdr i.stream.sends).2 }
  | .done (.slot _) false => { t with linked := false, toCli := [] }
  | _ => t

/-- A step of the player. -/
def Node.player (n : Node) : Node := { n with spk := n.spk.playStep }

/-! ## The server's end -/

/-- Bytes sent to the client, on a connection the server has accepted. -/
def Node.deliver (n : Node) (bs : List Byte) : Node :=
  if n.linked then { n with toCli := n.toCli ++ bs } else n

/-- `accept` on the client's connection, which is of no use when the client is
gone. -/
def Node.accepted (n : Node) : Node :=
  { n with linked := decide (n.spk.net ≠ .lost), toCli := [] }

/-- `rec` takes a record off the connection. -/
def Node.taken (n : Node) (cuts : List Nat) : Node :=
  { n with
    toSrv :=
      if sizeofBufHdr ≤ (receiveall sizeofBufHdr (segments cuts n.toSrv)).1.length
      then n.toSrv.drop sizeofBufHdr else [] }

/-! ## The whole -/

structure System where
  server : Server
  node : Ip → Node

/-- All programs just started; `chunks` is the capacity of each client's
queue. -/
def System.init (chunks : Ip → Nat) (tick : BitVec 64) (time : Int) : System :=
  ⟨Server.init, fun ip => Node.init (chunks ip) tick time⟩

/-- The server reads the pipe and sends the chunk. -/
def System.send (s : System) (i : LoopIn) : System :=
  if s.server.alive then
    let r := s.server.send i
    ⟨r.1, fun ip => (s.node ip).deliver (bytesTo ip r.2.1)⟩
  else s

/-- The server calls `pool`. -/
def System.serve (s : System) (i : PoolIn) (cuts : Ip → List Nat) : System :=
  if s.server.alive then
    let i := { i with recv := fun ip => segments (cuts ip) (s.node ip).toSrv }
    ⟨s.server.serve i, fun ip =>
      if i.selectErr = none ∧ i.conn = some ip then (s.node ip).accepted
      else if i.selectErr = none ∧ ip ∈ i.ready then (s.node ip).taken (cuts ip)
      else s.node ip⟩
  else s

/-- A step of one of the programs. -/
inductive SysOp where
  | send (i : LoopIn)
  | serve (i : PoolIn) (cuts : Ip → List Nat)
  | net (ip : Ip) (i : NetIn) (cuts : List Nat)
  | play (ip : Ip)

def System.step (s : System) : SysOp → System
  | .send i => s.send i
  | .serve i cuts => s.serve i cuts
  | .net ip i cuts =>
      { s with node := Function.update s.node ip ((s.node ip).net i cuts) }
  | .play ip =>
      { s with node := Function.update s.node ip (s.node ip).player }

end RoomSpeaker
