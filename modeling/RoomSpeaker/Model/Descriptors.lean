import RoomSpeaker.Foundation.Run
import RoomSpeaker.Model.Poll

/-!
# What the server asks of the system (`tcpsrv.cpp`, `sock.cpp`)

`listen`, the calls of the loop of `main`, and the destructor of the server, with
all they ask of the system.  Here `select` and `accept` speak of descriptors: which
are set in the `fd_set`, and which one is new.  Who is read, who is replaced and
what is closed follows from them.

A client that is closed has the descriptor −1; calls on it are recorded too, and so
is what `FD_ISSET` makes of it.  `close` succeeds the first time.  Logging and the
sleeps are left out.
-/

namespace RoomSpeaker

open Foundation

/-! ## Calls into the system -/

/-- A call on a descriptor. -/
inductive SrvCall where
  | socket (fd : Int)
  | setsockopt (fd : Int)
  | bind (fd : Int)
  | listen (fd : Int)
  /-- `fcntl` -/
  | fcntl (fd : Int)
  /-- the descriptors in the set -/
  | select (fds : List Int)
  | accept (listener fd : Int)
  /-- `recv` for a report -/
  | recv (fd : Int)
  /-- `send` of a frame -/
  | send (fd : Int)
  | shutdown (fd : Int)
  /-- the loop of `recv` in `destroy` -/
  | drain (fd : Int)
  | close (fd : Int)
  deriving DecidableEq, Repr

/-- `tcp_srv_sock::destroy` and `tcp_cli_sock::destroy` of an open socket, in which
`bio_unblock` changes the mode of the descriptor and changes it back. -/
def closeCalls (fd : Int) : List SrvCall :=
  [.shutdown fd, .fcntl fd, .drain fd, .shutdown fd, .fcntl fd, .close fd]

/-- `tcp_cli_sock::destroy` of a client. -/
def Clictx.destroyCalls (k : Clictx) (fd : Int) : List SrvCall :=
  if k.isopen then closeCalls fd else []

/-- The `destroy` that left the client as `k'`, if there was one. -/
def Clictx.closing (k : Clictx) (fd : Int) (k' : Clictx) : List SrvCall :=
  if k'.isopen then [] else k.destroyCalls fd

/-! ## `listen` -/

/-- The answers to one try: the descriptor of `socket`, and whether `bind` and
`listen` succeed. -/
structure ListenTry where
  fd : Int
  bound : Bool
  listens : Bool

/-- `tcp_srv_sock::create`, with `SO_REUSEADDR`: the value it returns. -/
def ListenTry.create (t : ListenTry) : Int × List SrvCall :=
  if t.fd ≤ 0 then (-1, [.socket t.fd])
  else
    let asked := [.socket t.fd, .setsockopt t.fd, .bind t.fd]
    if t.bound then (t.fd, asked) else (-1, asked ++ closeCalls t.fd)

/-- The loop of `listen`: `ntry`, and the number of tries left. -/
def listenLoop (tries : Nat → ListenTry) : Nat → Nat → Int × List SrvCall
  | _, 0 => (-1, [])
  | ntry, n + 1 =>
      let t := tries ntry
      let c := t.create
      if 0 < c.1 then
        let asked := c.2 ++ [.fcntl t.fd, .listen t.fd]
        if t.listens then (t.fd, asked)
        else
          let r := listenLoop tries (ntry + 1) n
          (r.1, asked ++ closeCalls t.fd ++ r.2)
      else (-1, c.2)

/-- `TcpSrv::listen`: the listening descriptor, or −1. -/
def TcpSrv.listen (tries : Nat → ListenTry) : Int × List SrvCall :=
  listenLoop tries 0 10

/-! ## `qsend` -/

/-- The calls of the loop of `qsend`. -/
def sendCalls (fd : Ip → Int) (p : Pilot) (i : QsendIn) :
    Chunk → List (Ip × Clictx) → List SrvCall
  | _, [] => []
  | chunk, e :: es =>
      let r := sendTo p i chunk e
      (if chunk.hdr.bufLen = 0 then []
        else .send (e.2.socket (fd e.1)) :: e.2.closing (fd e.1) r.2.1.2) ++
        sendCalls fd p i r.1 es

/-! ## `pool` -/

/-- The answers to a `pool`: `errno` when `select` fails, whether it returns more
than 0, `FD_ISSET` of a descriptor after it, what `accept` returns if it is called,
and for each client the results of its `recv` calls and the clock when it is
read. -/
structure FdPoolIn where
  selectErr : Option Nat
  wakes : Bool
  isset : Int → Bool
  newFd : Int
  newIp : Ip
  recv : Ip → List RecvOut
  tick : Ip → BitVec 64

namespace Poller

/-- The `destroy` of the client that a new one from the same address replaces. -/
def replaceCalls (s : Poller) (ip : Ip) : List SrvCall :=
  (s.srv.clis.entries.filter fun e => decide (e.1 = ip)).flatMap fun e =>
    e.2.destroyCalls (s.fd e.1)

/-- The accepting branch.  The socket of a new client gets its mode and both its
buffers. -/
def acceptFd (s : Poller) (i : FdPoolIn) : Poller × List SrvCall :=
  if i.isset s.listener then
    let asked := [SrvCall.accept s.listener i.newFd]
    if 0 < i.newFd then
      ({ s with
          srv := s.srv.accept i.newIp
          fd := fun ip => if ip = i.newIp then i.newFd else s.fd ip },
        asked ++ .fcntl i.newFd :: .setsockopt i.newFd :: .setsockopt i.newFd ::
          s.replaceCalls i.newIp)
    else (s, asked)
  else (s, [])

end Poller

/-- One turn of the reading loop: `FD_ISSET` and `rec`. -/
def readOneFd (i : FdPoolIn) (fd : Ip → Int) (p : Pilot) (e : Ip × Clictx) :
    Pilot × (Ip × Clictx) × List SrvCall :=
  let socket := e.2.socket (fd e.1)
  if i.isset socket then
    let r := e.2.rec' p (i.tick e.1) (e.2.sock (i.recv e.1))
    (r.2.1, (e.1, r.1), .recv socket :: e.2.closing (fd e.1) r.1)
  else (p, e, [])

def readLoopFd (i : FdPoolIn) (fd : Ip → Int) : Pilot → List (Ip × Clictx) →
    Pilot × List (Ip × Clictx) × List SrvCall
  | p, [] => (p, [], [])
  | p, e :: es =>
      let r := readOneFd i fd p e
      let rs := readLoopFd i fd r.1 es
      (rs.1, r.2.1 :: rs.2.1, r.2.2 ++ rs.2.2)

theorem readLoopFd_keys (i : FdPoolIn) (fd : Ip → Int) (es : List (Ip × Clictx)) :
    ∀ p, (readLoopFd i fd p es).2.1.map Prod.fst = es.map Prod.fst := by
  induction es with
  | nil => intro p; rfl
  | cons e es ih =>
      intro p
      have hkey : (readOneFd i fd p e).2.1.1 = e.1 := by
        simp only [readOneFd]
        split <;> rfl
      simp only [readLoopFd, List.map_cons, hkey, ih]

namespace Poller

/-- The reading loop over all clients. -/
def readAllFd (s : Poller) (i : FdPoolIn) : Poller × List SrvCall :=
  let r := readLoopFd i s.fd s.srv.pilot s.srv.clis.entries
  ({ s with
      srv :=
        { s.srv with
          clis := s.srv.clis.withEntries r.2.1 (readLoopFd_keys i s.fd _ _)
          pilot := r.1 } }, r.2.2)

/-- What `pool` does when `select` reports something. -/
def serveFd (s : Poller) (i : FdPoolIn) : Poller × List SrvCall :=
  let a := s.acceptFd i
  let r := a.1.readAllFd i
  (r.1, a.2 ++ r.2)

/-- `TcpSrv::pool`. -/
def fdPool (s : Poller) (i : FdPoolIn) : Poller × List SrvCall :=
  let asked := SrvCall.select s.fdSet
  let s := { s with srv := s.srv.markDirty }
  match i.selectErr with
  | some _ => (s, [asked])
  | none =>
      let r := if i.wakes then s.serveFd i else (s, [])
      ({ r.1 with srv := if r.1.srv.dirty then r.1.srv.clean else r.1.srv },
        asked :: r.2)

/-- The calls of a `qsend`. -/
def qsendCalls (s : Poller) (i : QsendIn) : List SrvCall :=
  let h := s.srv.qsendHead i.usecs
  sendCalls s.fd h.1.pilot i
    { i.chunk with hdr := h.1.pilot.stamp h.2 i.chunk.hdr } h.1.clis.entries

/-- `TcpSrv::destroy`: the listening socket, then the destructors of the clients. -/
def destroyCalls (s : Poller) : List SrvCall :=
  closeCalls s.listener ++
    s.srv.clis.entries.flatMap fun e => e.2.destroyCalls (s.fd e.1)

end Poller

/-! ## The program -/

/-- A call made by the loop of `main`. -/
inductive FdOp where
  | qsend (i : QsendIn)
  | pool (i : FdPoolIn)

def Poller.fdStep (s : Poller) : FdOp → Poller
  | .qsend i => { s with srv := (s.srv.qsend 0 i).srv }
  | .pool i => (s.fdPool i).1

/-- What a step asks of the system. -/
def Poller.fdCalls (s : Poller) : FdOp → List SrvCall
  | .qsend i => s.qsendCalls i
  | .pool i => (s.fdPool i).2

/-- All that the server asks for, from `listen` to its destructor. -/
def TcpSrv.life (tries : Nat → ListenTry) (ops : List FdOp) : List SrvCall :=
  (TcpSrv.listen tries).2 ++
    if h : 0 < (TcpSrv.listen tries).1 then
      let s := Poller.init (TcpSrv.listen tries).1 h
      trace Poller.fdStep Poller.fdCalls s ops ++
        (run Poller.fdStep s ops).destroyCalls
    else []

end RoomSpeaker
