import RoomSpeaker.Model.TcpSrv

/-!
# The descriptors of `pool` (`tcpsrv.cpp`, `sock.cpp`)

`pool` fills an `fd_set` with the descriptors of the open clients, hands it to
`select`, and then asks for every client whether its descriptor is set.  Here the
server carries the descriptors: a client's is the one `accept` returned for it,
and −1 once `sock::destroy` closed it.

`FD_SET` and `FD_ISSET` are only defined for descriptors from 0 up.
-/

namespace RoomSpeaker

open Foundation

/-- `socket()` of a client that was accepted with this descriptor. -/
def Clictx.socket (k : Clictx) (fd : Int) : Int := if k.isopen then fd else -1

/-- The server with its listening descriptor and the last descriptor accepted
from each address. -/
structure Poller where
  srv : TcpSrv
  listener : Int
  listening : 0 < listener
  fd : Ip → Int

/-- The server after `listen`, with no client. -/
def Poller.init (listener : Int) (h : 0 < listener) : Poller :=
  ⟨TcpSrv.init, listener, h, fun _ => -1⟩

/-- The inputs of a `pool`: those of the call without descriptors, whether
`select` returned more than 0, and the descriptor that `accept` returned.  A
time-out reports nothing; a connection counts as accepted when its descriptor is
more than 0. -/
structure PollIn where
  pool : PoolIn
  wakes : Bool
  newFd : Int
  quiet : wakes = false → pool.conn = none ∧ pool.ready = []
  accepted : 0 < newFd

/-! ## `pool` -/

/-- The descriptors of the clients, in the order of the map. -/
def Poller.sockets (s : Poller) : List Int :=
  s.srv.clis.entries.map fun e => e.2.socket (s.fd e.1)

/-- The descriptors put in the set by `FD_SET`: the listening one, and those of
the clients that have one. -/
def Poller.fdSet (s : Poller) : List Int :=
  s.listener :: s.sockets.filter fun d => decide (d > 0)

/-- After the accepting branch. -/
def Poller.acceptIf (s : Poller) (i : PollIn) : Poller :=
  { s with
    srv := s.srv.acceptIf i.pool.conn
    fd := fun ip => if i.pool.conn = some ip then i.newFd else s.fd ip }

/-- The descriptors handed to `FD_ISSET`: the listening one, and those of all
clients after the accepting branch.  A client's `rec` can only close its own,
which was tested before. -/
def Poller.polled (s : Poller) (i : PollIn) : List Int :=
  match i.pool.selectErr with
  | some _ => []
  | none => if i.wakes then s.listener :: (s.acceptIf i).sockets else []

/-- `TcpSrv::pool`. -/
def Poller.pool (s : Poller) (i : PollIn) : Poller :=
  match i.pool.selectErr with
  | some _ => { s with srv := (s.srv.pool i.pool).1 }
  | none => { s.acceptIf i with srv := (s.srv.pool i.pool).1 }

/-! ## Runs -/

/-- A call made by the server loop. -/
inductive PollOp where
  | qsend (i : QsendIn)
  | pool (i : PollIn)

def Poller.step (s : Poller) : PollOp → Poller
  | .qsend i => { s with srv := (s.srv.qsend 0 i).srv }
  | .pool i => s.pool i

end RoomSpeaker
