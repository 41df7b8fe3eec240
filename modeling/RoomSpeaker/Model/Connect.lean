import RoomSpeaker.Foundation.KeyMap
import RoomSpeaker.Model.Inet

/-!
# Connecting to a server (`sock.cpp`, `sclient.cpp`)

`s4connect` starts a connection on a socket that does not block and waits with
`select` until the socket is writable or the callback refuses.  One pass of the
loop of `_tmain` tries one address after the other.

What the system answers is an input: the descriptor of `socket`, the result of
`connect`, and for every turn of the wait the clock and the result of `select`.
A socket is writable once the connection is made or has failed; which of the two
it is shows in the input, and `s4connect` does not ask.
-/

namespace RoomSpeaker

open Foundation

/-! ## What the system answers -/

/-- `EINPROGRESS`, which `WOULDBLOCK` is too. -/
def einprogress : Nat := 115

/-- `connect`: 0, or -1 with its `errno`. -/
inductive ConnectOut where
  | done
  | error (errno : Nat)
  deriving DecidableEq, Repr

/-- `select` on the socket: 0, -1, or more than 0 with what became of the
attempt. -/
inductive SelectOut where
  | timeout
  | failed
  | writable (accepted : Bool)
  deriving DecidableEq, Repr

/-- One turn of the wait: the seconds since its start, and `select`. -/
structure ConnectPoll where
  tdiff : Nat
  out : SelectOut
  deriving DecidableEq, Repr

/-- The answers for one address.  When the turns are used up the callback
refuses. -/
structure Attempt where
  fd : Int
  connect : ConnectOut
  polls : List ConnectPoll
  deriving DecidableEq, Repr

/-! ## The socket -/

/-- `_thesock`, the address in `_remote_sin`, and as a ghost the text of the
address whose host accepted the connection on the socket. -/
structure CliSock where
  thesock : Int
  remote : BitVec 32
  peer : Option Text
  deriving DecidableEq, Repr

/-- `tcp_cli_sock::destroy`. -/
def CliSock.destroy (s : CliSock) : CliSock :=
  if 0 < s.thesock then { s with thesock := -1, peer := none } else s

/-- `inet_aton(sip, &_remote_sin.sin_addr)`: a text that is no address leaves
the one that was there. -/
def CliSock.aim (s : CliSock) (sip : Text) : CliSock :=
  { s with remote := (inetAton sip.chars).getD s.remote }

/-- The host that is aimed at accepts; it is that of the text only if the text
is an address. -/
def CliSock.join (s : CliSock) (sip : Text) : CliSock :=
  { s with peer := if (inetAton sip.chars).isSome then some sip else none }

/-! ## `s4connect` -/

/-- `sock::_tout`. -/
def sockTout : Nat := 2000

/-- `sock::DefCBCall`. -/
def defCBCall (dw : Nat) : Bool := decide (dw < sockTout)

/-- How the wait ends: the socket is writable, or the callback refuses and `err`
is the result of the last call. -/
inductive Waited where
  | writable (accepted : Bool)
  | refused (err : Int)
  deriving DecidableEq, Repr

/-- The loop of `s4connect`. -/
def connectLoop (cbCall : Nat → Bool) (err : Int) : List ConnectPoll → Waited
  | [] => .refused err
  | p :: ps =>
      if cbCall p.tdiff then
        match p.out with
        | .timeout => connectLoop cbCall 0 ps
        | .failed => connectLoop cbCall (-1) ps
        | .writable accepted => .writable accepted
      else .refused err

/-- `tcp_cli_sock::s4connect`; `noWait` stands for a `pUser` of -1. -/
def s4connect (cbCall : Nat → Bool) (noWait : Bool) (s : CliSock) (sip : Text)
    (a : Attempt) : CliSock × Int :=
  let s := if s.thesock ≠ -1 then s.destroy else s
  let s := { s with thesock := a.fd, peer := none }
  if a.fd < 0 then (s, 0)
  else
    let s := s.aim sip
    match a.connect with
    | .done => (s.join sip, a.fd)
    | .error e =>
        if e = einprogress then
          if noWait then (s, -1)
          else
            match connectLoop cbCall (-1) a.polls with
            | .writable accepted => (if accepted then s.join sip else s, a.fd)
            | .refused err => if err = -1 then (s.destroy, 0) else (s, a.fd)
        else (s.destroy, 0)

/-! ## A pass over the addresses -/

/-- A call of `s4connect` in the pass: the address, and the value returned. -/
structure ConnectCall where
  ip : Text
  attempt : Attempt
  ret : Int

/-- The loop over `_ips` in `_tmain`: the socket it leaves, and its calls. -/
def connectPass (s : CliSock) : List (Text × Attempt) → CliSock × List ConnectCall
  | [] => (s, [])
  | e :: es =>
      let r := s4connect defCBCall false s e.1 e.2
      if 0 < r.2 then (r.1, [⟨e.1, e.2, r.2⟩])
      else
        let p := connectPass r.1.destroy es
        (p.1, ⟨e.1, e.2, r.2⟩ :: p.2)

end RoomSpeaker
