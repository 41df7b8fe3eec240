import RoomSpeaker.Model.Connect
import RoomSpeaker.Model.Speaker

/-!
# The client's connections (`sclient::_tmain`, `main.cpp`)

The network thread connects to one of the addresses, receives for as long as the
connection lasts, closes it and starts over.  The socket is here with all its
members: the flags of the connection, and `_blocking`, which `bio_unblock` puts
aside for a call and puts back after it.

Whatever is asked of the system is recorded, with the mode the descriptor is in at
that moment.  `close` succeeds the first time.  Logging, the sleeps and the
`select` of `_get_data` are left out; the latter may report the socket whenever it
likes.
-/

namespace RoomSpeaker

open Foundation

/-! ## Calls into the system -/

/-- A call on a descriptor; `nonblock` is its `O_NONBLOCK`. -/
inductive SockCall where
  | socket (fd : Int)
  | connect (fd : Int) (nonblock : Bool)
  /-- `setsockopt` for both buffers -/
  | setBuffers (fd : Int)
  /-- `recv` for a frame -/
  | recv (fd : Int) (nonblock : Bool)
  /-- `send` of a report -/
  | send (fd : Int) (nonblock : Bool)
  | shutdown (fd : Int)
  /-- the loop of `recv` in `destroy` -/
  | drain (fd : Int) (nonblock : Bool)
  | close (fd : Int)
  deriving DecidableEq, Repr

/-! ## The socket -/

/-- `tcp_cli_sock`: the descriptor with its address, `_connecting`, `_connected`
and `_blocking`; `nonblock` is `O_NONBLOCK` of the open descriptor. -/
structure CliConn where
  sock : CliSock
  connecting : Bool
  connected : Bool
  blocking : Bool
  nonblock : Bool
  deriving DecidableEq, Repr

namespace CliConn

/-- `tcp_cli_sock::tcp_cli_sock`. -/
def init : CliConn := ⟨⟨-1, 0, none⟩, false, false, false, false⟩

def isopen (s : CliConn) : Bool := decide (0 < s.sock.thesock)

/-- `sock::set_blocking`. -/
def setBlocking (s : CliConn) (block : Bool) : CliConn :=
  { s with
    blocking := block
    nonblock := if s.isopen then !block else s.nonblock }

/-- `sock::set_mtu`. -/
def setMtu (s : CliConn) : List SockCall :=
  if s.isopen then [.setBuffers s.sock.thesock] else []

/-- `tcp_cli_sock::is_really_connected`; `peer` is what `getpeername` says. -/
def isReallyConnected (s : CliConn) (peer : Bool) : CliConn × Bool :=
  if s.isopen && (!s.connected && peer) then ({ s with connected := true }, true)
  else (s, s.connected)

/-- `tcp_cli_sock::destroy`. -/
def destroy (s : CliConn) : CliConn × List SockCall :=
  if s.isopen then
    let fd := s.sock.thesock
    let s := { s with connecting := false, connected := false }
    let unblocked := s.setBlocking false
    let drained := SockCall.drain fd unblocked.nonblock
    let s := unblocked.setBlocking s.blocking
    ({ s with sock := s.sock.destroy },
      [.shutdown fd, drained, .shutdown fd, .close fd])
  else (s, [])

/-- `tcp_cli_sock::s4connect` from `::connect` on, the socket being unblocked. -/
def attempt (cbCall : Nat → Bool) (s : CliConn) (sip : Text) (a : Attempt) :
    CliConn × Int × List SockCall :=
  match a.connect with
  | .done => ({ s with sock := s.sock.join sip, connecting := false }, a.fd, [])
  | .error e =>
      if e = einprogress then
        match connectLoop cbCall (-1) a.polls with
        | .writable accepted =>
            ({ s with
                sock := if accepted then s.sock.join sip else s.sock
                connecting := false }, a.fd, [])
        | .refused err =>
            let s := { s with connecting := false }
            if err = -1 then (s.destroy.1, 0, s.destroy.2) else (s, a.fd, [])
      else
        let s := { s with connecting := false }
        (s.destroy.1, 0, s.destroy.2)

/-- `tcp_cli_sock::s4connect`. -/
def s4connect (cbCall : Nat → Bool) (s : CliConn) (sip : Text) (a : Attempt) :
    CliConn × Int × List SockCall :=
  let d := if s.sock.thesock ≠ -1 then s.destroy else (s, [])
  let s := { d.1 with
    sock := { d.1.sock with thesock := a.fd, peer := none }
    nonblock := false }
  if a.fd < 0 then (s, 0, d.2 ++ [.socket a.fd])
  else
    let s := s.setBlocking s.blocking
    let s := { s with sock := s.sock.aim sip }
    let unblocked := { s.setBlocking false with connecting := false }
    let r := unblocked.attempt cbCall sip a
    (r.1.setBlocking s.blocking, r.2.1,
      d.2 ++ .socket a.fd :: .connect a.fd unblocked.nonblock :: r.2.2)

end CliConn

/-! ## The program -/

/-- Where `_tmain` is. -/
inductive TmainPc where
  /-- before `while(__alive)` -/
  | head
  /-- in the loop over `_ips`, with the addresses left -/
  | trying (ips : List Text)
  /-- behind that loop -/
  | use
  /-- in `_get_data` -/
  | getData
  /-- before the `destroy` at the end -/
  | tail
  /-- returned -/
  | ended
  deriving DecidableEq

/-- The two threads, the socket of the network thread, `_ips`, and `__alive`. -/
structure CliMain where
  spk : Speaker
  conn : CliConn
  ips : List Text
  alive : Bool
  pc : TmainPc

namespace CliMain

/-- `main` once servers are found. -/
def init (ips : List Text) (chunks chunk : Nat) (tick : BitVec 64) (time : Int) :
    CliMain :=
  ⟨Speaker.init chunks chunk tick time, CliConn.init, ips, true, .head⟩

/-- What the environment decides for a step of `_tmain`: `getpeername`, the answers
for one address, and the inputs of the network thread in `_get_data`. -/
structure TmainIn where
  peer : Bool
  attempt : Attempt
  ready : Bool
  stream : StreamIn

/-- `while(this->socket()>0)` at the head of the loop of `_get_data`. -/
def whileOpen (s : CliMain) : CliMain :=
  if s.spk.net = .loop ∧ s.conn.isopen = false then
    { s with spk := { s.spk with net := .lost }, pc := .tail }
  else s

/-- What the network thread asks of the system in `_get_data`. -/
def dataCalls (s : CliMain) : List SockCall :=
  match s.spk.net with
  | .got _ => [.recv s.conn.sock.thesock s.conn.nonblock]
  | .report _ =>
      if s.spk.cli.qos.frmSig ≠ 0 then
        [.send s.conn.sock.thesock s.conn.nonblock]
      else []
  | _ => []

/-- A step in `_get_data`.  If a frame was not received whole, its chunk has been
released, and the connection is given up. -/
def dataStep (s : CliMain) (i : TmainIn) : CliMain × List SockCall :=
  let spk := s.spk.netStep ⟨false, i.ready, i.stream⟩
  if spk.net = .lost then
    ({ s with spk := spk, conn := s.conn.destroy.1, pc := .tail },
      s.dataCalls ++ s.conn.destroy.2)
  else ({ s with spk := spk }.whileOpen, s.dataCalls)

/-- `sclient::_tmain`. -/
def tmainStep (s : CliMain) (i : TmainIn) : CliMain × List SockCall :=
  match s.pc with
  | .head =>
      if s.alive then
        let r := s.conn.isReallyConnected i.peer
        ({ s with
            conn := r.1
            pc := if !r.2 && !r.1.connecting then .trying s.ips else .tail }, [])
      else ({ s with pc := .ended }, [])
  | .trying [] => ({ s with pc := .use }, [])
  | .trying (ip :: ips) =>
      let r := s.conn.s4connect defCBCall ip i.attempt
      if 0 < r.2.1 then ({ s with conn := r.1, pc := .use }, r.2.2)
      else ({ s with conn := r.1.destroy.1, pc := .trying ips },
        r.2.2 ++ r.1.destroy.2)
  | .use =>
      ({ s with
          spk := { s.spk with net := .loop }
          conn := s.conn.setBlocking true
          pc := .getData }.whileOpen, s.conn.setMtu)
  | .getData => s.dataStep i
  | .tail => ({ s with conn := s.conn.destroy.1, pc := .head }, s.conn.destroy.2)
  | .ended => (s, [])

end CliMain

/-- A step of the network thread or of the player, or the end of `__alive`. -/
inductive CliMainOp where
  | tmain (i : CliMain.TmainIn)
  | play
  | quit

def CliMain.step (s : CliMain) : CliMainOp → CliMain
  | .tmain i => (s.tmainStep i).1
  | .play => { s with spk := s.spk.playStep }
  | .quit => { s with alive := false }

/-- What a step asks of the system. -/
def CliMain.calls (s : CliMain) : CliMainOp → List SockCall
  | .tmain i => (s.tmainStep i).2
  | _ => []

end RoomSpeaker
