import Mathlib.Data.Nat.Basic
import RoomSpeaker.Foundation.KeyMap
import RoomSpeaker.Model.Circle
import RoomSpeaker.Model.Sock

/-!
# The server (`tcpsrv.cpp`)

`TcpSrv` keeps its clients in a map keyed by IP address, so both of its loops
visit them in address order.  `pool` accepts at most one client, reads the
reports that are ready and cleans up; `qsend` sends one chunk to everybody.

What the kernel decides is input: the outcome of `select`, the accepted address,
the results of `recv` and `send`, the clock.  Logging is left out.
-/

namespace RoomSpeaker

open Foundation

/-- `SADDR_46::ip4`; addresses are only compared. -/
abbrev Ip := Nat

/-! ## One client -/

/-- `Clictx`.  `isopen` is `socket() > 0`. -/
structure Clictx where
  req : BufHdr
  index : Nat
  isopen : Bool
  dirty : Bool
  deriving DecidableEq, Repr

instance : Inhabited Clictx := ⟨⟨BufHdr.zero, 0, false, false⟩⟩

/-- A client as `pool` sets it up after `accept`. -/
def Clictx.accepted (index : Nat) : Clictx := ⟨BufHdr.zero, index, true, true⟩

/-- `tcp_cli_sock::destroy`. -/
def Clictx.destroy (k : Clictx) : Clictx := { k with isopen := false }

/-- The results of `recv` on a client's socket; a destroyed one only fails. -/
def Clictx.sock (k : Clictx) (recv : List RecvOut) : List RecvOut :=
  if k.isopen then recv else [.error]

/-- The fields `_pilotseq` to `_pilot_qoptim`: what the server keeps of the
pilot's last report. -/
structure Pilot where
  seq : BitVec 32
  ping : BitVec 64
  optSkew : Int
  qlen : Int
  qsz : Int
  qoptim : Int
  deriving DecidableEq, Repr

def Pilot.zero : Pilot := ⟨0, 0, 0, 0, 0, 0⟩

/-- The fields as `rec` copies them from the pilot's record. -/
def Pilot.ofReport (req : BufHdr) : Pilot where
  seq := req.curSeq
  ping := req.cliPing
  optSkew := (req.cliQoptim.toNat : Int) - req.cliQlen.toNat
  qlen := req.cliQlen.toNat
  qsz := req.cliQsize.toNat
  qoptim := req.cliQoptim.toNat

/-- `Clictx::rec`: the client, the pilot fields and the return value.  The
record is received over the previous one, and anything from one byte up counts
as a record. -/
def Clictx.rec' (k : Clictx) (psrv : Pilot) (tick : BitVec 64)
    (sock : List RecvOut) : Clictx × Pilot × Int :=
  let rt := (receiveall sizeofBufHdr sock).1
  if rt.length = 0 then ({ k.destroy with dirty := true }, psrv, 0)
  else
    let req := k.req.overlay rt
    if req.frmSig = syncData then
      let req := { req with cliPing := tick - req.srvTick }
      let psrv := if k.index = 0 then Pilot.ofReport req else psrv
      let req :=
        { req with
          isPilot := decide (k.index = 0)
          bufLen := 0
          pilotPing := psrv.ping
          pilotSeq := BitVec.ofInt 32 psrv.qsz }
      ({ k with req := req }, psrv, if k.index = 0 then psrv.optSkew else 0)
    else ({ k with req := req }, psrv, 0)

/-! ## The server state -/

structure TcpSrv where
  clis : KeyMap Ip Clictx
  dirty : Bool
  newclient : Bool
  lastQos : BitVec 64
  pilot : Pilot

/-- `TcpSrv::TcpSrv`. -/
def TcpSrv.init : TcpSrv := ⟨KeyMap.empty, false, false, 0, Pilot.zero⟩

/-! ## `qsend` -/

/-- The inputs of a `qsend`: the chunk, `usecs`, and for each client the clock
when its header is filled in and the results of its `send` calls. -/
structure QsendIn where
  chunk : Chunk
  usecs : BitVec 64
  tick : Ip → BitVec 64
  sends : Ip → List SendOut

/-- A frame as it was handed to `sendall`, and the part of it that was sent. -/
structure Frame where
  ip : Ip
  index : Nat
  hdr : BufHdr
  payload : List Byte
  sent : List Byte
  deriving DecidableEq, Repr

/-- `Chunk::buff`, `Chunk::size()` bytes of it. -/
def Chunk.buff (k : Chunk) : List Byte := k.hdr.encode ++ k.payload

/-- The branch at the top of `qsend`, and the frame signature it settles. -/
def TcpSrv.qsendHead (s : TcpSrv) (usecs : BitVec 64) : TcpSrv × BitVec 8 :=
  if s.newclient then
    ({ s with newclient := false, pilot := { s.pilot with seq := 0, ping := 0 } },
      aliveData)
  else if (usecs - s.lastQos).toNat > qosTo then
    ({ s with lastQos := usecs }, syncData)
  else (s, aliveData)

/-- The header fields every client gets alike. -/
def Pilot.stamp (p : Pilot) (sig : BitVec 8) (h : BufHdr) : BufHdr :=
  { h with pilotSeq := p.seq, pilotPing := p.ping, frmSig := sig }

/-- The header fields filled in for one client. -/
def Clictx.address (k : Clictx) (p : Pilot) (tick : BitVec 64) (h : BufHdr) :
    BufHdr :=
  { h with
    cliQlen := k.req.cliQlen
    cliQsize := k.req.cliQsize
    cliQoptim := k.req.cliQoptim
    cliPing := k.req.cliPing
    pilotQPerc := BitVec.ofInt 16 ((p.qlen * 100).tdiv (p.qsz + 1))
    srvTick := tick
    isPilot := k.req.isPilot }

/-- The body of the loop over the clients.  The chunk's header is filled in
place, and a client whose frame is not sent whole is destroyed. -/
def sendTo (p : Pilot) (i : QsendIn) (chunk : Chunk) (e : Ip × Clictx) :
    Chunk × (Ip × Clictx) × List Frame :=
  if chunk.hdr.bufLen = 0 then (chunk, e, [])
  else
    let chunk := { chunk with hdr := e.2.address p (i.tick e.1) chunk.hdr }
    let left := sendall chunk.buff (if e.2.isopen then i.sends e.1 else [])
    let k := if left.length ≠ 0 then e.2.destroy else e.2
    (chunk, (e.1, k),
      [⟨e.1, e.2.index, chunk.hdr, chunk.payload,
        chunk.buff.take (chunk.buff.length - left.length)⟩])

def sendLoop (p : Pilot) (i : QsendIn) : Chunk → List (Ip × Clictx) →
    Chunk × List (Ip × Clictx) × List Frame
  | chunk, [] => (chunk, [], [])
  | chunk, e :: es =>
      let r := sendTo p i chunk e
      let rs := sendLoop p i r.1 es
      (rs.1, r.2.1 :: rs.2.1, r.2.2 ++ rs.2.2)

theorem sendTo_key (p : Pilot) (i : QsendIn) (chunk : Chunk)
    (e : Ip × Clictx) : (sendTo p i chunk e).2.1.1 = e.1 := by
  unfold sendTo
  split <;> rfl

theorem sendLoop_keys (p : Pilot) (i : QsendIn) (es : List (Ip × Clictx)) :
    ∀ chunk, (sendLoop p i chunk es).2.1.map Prod.fst = es.map Prod.fst := by
  induction es with
  | nil => intro chunk; rfl
  | cons e es ih =>
      intro chunk
      simp only [sendLoop, List.map_cons, sendTo_key, ih]

/-- What a `qsend` leaves: the server, the chunk, `buf_len`, the frames in the
order they were sent, and the return value. -/
structure QsendOut where
  srv : TcpSrv
  chunk : Chunk
  bufLen : Nat
  frames : List Frame
  clis : Nat

/-- `TcpSrv::qsend`. -/
def TcpSrv.qsend (s : TcpSrv) (bufLen : Nat) (i : QsendIn) : QsendOut :=
  let h := s.qsendHead i.usecs
  let chunk := { i.chunk with hdr := h.1.pilot.stamp h.2 i.chunk.hdr }
  let r := sendLoop h.1.pilot i chunk h.1.clis.entries
  { srv :=
      { h.1 with
        clis := h.1.clis.withEntries r.2.1 (sendLoop_keys _ i _ chunk) }
    chunk := r.1
    bufLen := bufLen + r.2.2.length * chunk.size
    frames := r.2.2
    clis := h.1.clis.size }

/-! ## `pool` -/

/-- The inputs of a `pool`: `errno` when `select` fails, the clients whose
descriptors it reports, the address of the connection that is accepted, and for
each client the results of its `recv` calls and the clock when it is read.  A
time-out reports nothing, and a failed `accept` has no effect. -/
structure PoolIn where
  selectErr : Option Nat
  ready : List Ip
  conn : Option Ip
  recv : Ip → List RecvOut
  tick : Ip → BitVec 64

/-- The scan before `select`: a client found closed asks for a cleanup. -/
def TcpSrv.markDirty (s : TcpSrv) : TcpSrv :=
  { s with dirty := s.dirty || s.clis.entries.any fun e => !e.2.isopen }

/-- Accepting a connection.  A client with the same address is replaced. -/
def TcpSrv.accept (s : TcpSrv) (ip : Ip) : TcpSrv :=
  { s with
    clis := s.clis.insert ip (Clictx.accepted s.clis.size)
    newclient := true
    pilot := Pilot.zero }

/-- One turn of the reading loop. -/
def readOne (i : PoolIn) (rd : List Ip) (p : Pilot) (e : Ip × Clictx) :
    Pilot × Ip × Clictx :=
  if e.1 ∈ rd then
    let r := e.2.rec' p (i.tick e.1) (e.2.sock (i.recv e.1))
    (r.2.1, e.1, r.1)
  else (p, e)

def readLoop (i : PoolIn) (rd : List Ip) : Pilot → List (Ip × Clictx) →
    Pilot × List (Ip × Clictx)
  | p, [] => (p, [])
  | p, e :: es =>
      let r := readOne i rd p e
      let rs := readLoop i rd r.1 es
      (rs.1, r.2 :: rs.2)

theorem readOne_key (i : PoolIn) (rd : List Ip) (p : Pilot)
    (e : Ip × Clictx) : (readOne i rd p e).2.1 = e.1 := by
  unfold readOne
  split <;> rfl

theorem readLoop_keys (i : PoolIn) (rd : List Ip) (es : List (Ip × Clictx)) :
    ∀ p, (readLoop i rd p es).2.map Prod.fst = es.map Prod.fst := by
  induction es with
  | nil => intro p; rfl
  | cons e es ih =>
      intro p
      simp only [readLoop, List.map_cons, readOne_key, ih]

/-- The reading loop over all clients. -/
def TcpSrv.readAll (s : TcpSrv) (i : PoolIn) (rd : List Ip) : TcpSrv :=
  let r := readLoop i rd s.pilot s.clis.entries
  { s with
    clis := s.clis.withEntries r.2 (readLoop_keys i rd _ s.pilot)
    pilot := r.1 }

/-- The first loop of `_clean`: the scan starts over after each client it
removes; the first argument bounds the number of scans. -/
def eraseClosed : Nat → KeyMap Ip Clictx → KeyMap Ip Clictx
  | 0, m => m
  | n + 1, m =>
      match m.entries.find? fun e => !e.2.isopen with
      | some e => eraseClosed n (m.erase e.1)
      | none => m

/-- The entries numbered in list order. -/
def numbered (es : List (Ip × Clictx)) : List (Ip × Clictx) :=
  es.mapIdx fun k e => (e.1, { e.2 with index := k })

theorem numbered_keys (es : List (Ip × Clictx)) :
    (numbered es).map Prod.fst = es.map Prod.fst := by
  apply List.ext_getElem <;> simp [numbered]

/-- The second loop of `_clean`: the clients are numbered in map order. -/
def renumber (m : KeyMap Ip Clictx) : KeyMap Ip Clictx :=
  m.withEntries (numbered m.entries) (numbered_keys m.entries)

/-- `TcpSrv::_clean`. -/
def TcpSrv.clean (s : TcpSrv) : TcpSrv :=
  { s with
    clis := renumber (eraseClosed s.clis.size s.clis)
    pilot := Pilot.zero
    dirty := false }

/-- The accepting branch of `pool`. -/
def TcpSrv.acceptIf (s : TcpSrv) : Option Ip → TcpSrv
  | some ip => s.accept ip
  | none => s

/-- The clients in the descriptor set after `accept`: a connection accepted in
this call is not among those `select` looked at. -/
def PoolIn.readSet (i : PoolIn) : List Ip :=
  i.ready.filter fun ip => decide (i.conn ≠ some ip)

/-- `TcpSrv::pool`: the server and the return value. -/
def TcpSrv.pool (s : TcpSrv) (i : PoolIn) : TcpSrv × Int :=
  let s := s.markDirty
  match i.selectErr with
  | some errno => (s, -errno)
  | none =>
      let s := (s.acceptIf i.conn).readAll i i.readSet
      let s := if s.dirty then s.clean else s
      (s, if s.pilot.qsz ≠ 0 then s.pilot.qoptim - s.pilot.qlen else 0)

/-! ## Runs -/

/-- A call made by the server loop. -/
inductive SrvOp where
  | qsend (i : QsendIn)
  | pool (i : PoolIn)

def TcpSrv.step (s : TcpSrv) : SrvOp → TcpSrv
  | .qsend i => (s.qsend 0 i).srv
  | .pool i => (s.pool i).1

end RoomSpeaker
