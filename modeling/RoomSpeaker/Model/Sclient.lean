import RoomSpeaker.Model.Circle
import RoomSpeaker.Model.Sock

/-!
# The client's network side (`sclient.cpp`)

`_check_stream` receives one frame into a chunk, resynchronises the queue when
the frame asks for it, and sends the pending report.  It is written here as the
composition of its parts, since the player thread may run between them.

`time(0)`, `tick_count()` and the results of `recv` and `send` are inputs.
Logging is left out.
-/

namespace RoomSpeaker

open Foundation

/-- The fields of `sclient` that `_check_stream` and `update_frame` use. -/
structure Sclient where
  qos : BufHdr
  ping : BitVec 32
  pingdiff : BitVec 64
  frmdiff : Int
  rewind : Nat
  now : BitVec 64
  fut : BitVec 64
  requeTime : Int
  bps : Int
  srvsync : Bool
  deriving DecidableEq, Repr

/-- `sclient::sclient`, with the clock readings of the constructor and of the
first line of `_tmain`. -/
def Sclient.new (tick : BitVec 64) (time : Int) : Sclient :=
  ⟨BufHdr.zero, 0, 0, 0, 0, tick, 0, time - maxRequeInterval + 5, 0, false⟩

/-- The inputs of a `_check_stream`. -/
structure StreamIn where
  recv : List RecvOut
  time : Int
  tick : BitVec 64
  sends : List SendOut

/-! ## Receiving a frame -/

/-- What the two receives at the top of `_check_stream` leave: the chunk, the
number of payload bytes, whether the header arrived whole, and the socket. -/
structure Received where
  chunk : Chunk
  bufLen : Nat
  whole : Bool
  sock : List RecvOut

/-- The two receives.  The payload is asked for whole, and only when the header
announces any; bytes that do not arrive keep their old contents. -/
def recvFrame (pk : Chunk) (sock : List RecvOut) : Received :=
  let h := receiveall sizeofBufHdr sock
  let pk := { pk with hdr := pk.hdr.overlay h.1 }
  if h.1.length ≠ sizeofBufHdr then ⟨pk, 0, false, h.2⟩
  else if pk.hdr.bufLen ≠ 0 then
    let p := receiveall pk.len h.2
    ⟨{ pk with payload := p.1 ++ pk.payload.drop p.1.length }, p.1.length, true,
      p.2⟩
  else ⟨pk, 0, true, h.2⟩

/-- `buf_len == pk->_hdr->buf_len`, for a header that arrived whole. -/
def Received.ok (r : Received) : Bool :=
  r.whole && decide ((r.bufLen : Int) = r.chunk.hdr.bufLen.toInt)

/-! ## Acting on a frame -/

/-- The frame carries the pilot's position. -/
def BufHdr.syncs (h : BufHdr) : Bool :=
  decide (h.frmSig = syncData) && decide (h.pilotSeq ≠ 0)

/-- `_rewind`, `_ping`, `_pingdiff` and `_frmdiff` as a sync frame sets them. -/
def Sclient.measure (cli : Sclient) (h : BufHdr) : Sclient :=
  { cli with
    rewind := 0
    ping := h.cliPing.truncate 32
    pingdiff := h.pilotPing
    frmdiff := (h.pilotSeq - h.curSeq).toInt }

/-- The gates on a client that is not the pilot: the pilot's queue is near its
optimum, this client is off, and its last resync is long enough ago. -/
def Sclient.mayRequeue (cli : Sclient) (h : BufHdr) (time : Int) : Bool :=
  decide (((h.pilotQPerc.toNat : Int) - cliSyncPercent).natAbs < synchedDelta) &&
    (decide (cli.frmdiff ≠ 0) &&
      decide (time - cli.requeTime > maxRequeInterval))

/-- The resync branch: the client, and the argument of the `force_optim` it
calls, if any.  `optlen` is `_rq->length()`. -/
def Sclient.requeue (cli : Sclient) (h : BufHdr) (optlen : Nat) (time : Int) :
    Sclient × Option Int :=
  if h.isPilot = false then
    if cli.mayRequeue h time then
      let newopt := (optlen : Int) - cli.frmdiff
      ({ cli with requeTime := time },
        if newopt > synchedDelta * 2 then some newopt else none)
    else (cli, none)
  else (cli, some cliSyncPercent)

/-- Sends the pending report, if there is one: the client and the bytes sent. -/
def Sclient.sendQos (cli : Sclient) (h : BufHdr) (sends : List SendOut) :
    Sclient × List Byte :=
  if cli.qos.frmSig ≠ 0 then
    let qos := { cli.qos with srvTick := h.srvTick }
    let left := sendall qos.encode sends
    ({ cli with qos := { qos with frmSig := 0 } },
      qos.encode.take (qos.encode.length - left.length))
  else (cli, [])

/-- The end of `_check_stream`: once a second the byte count starts over. -/
def Sclient.countBps (cli : Sclient) (tick : BitVec 64) : Sclient :=
  let cli := { cli with fut := tick }
  if (cli.fut - cli.now).toNat > oneSec then
    { cli with now := cli.fut, bps := 0 }
  else cli

/-! ## `_check_stream` -/

/-- What `_check_stream` leaves: its return value, the client, the queue, the
socket and the bytes sent to the server. -/
structure StreamOut where
  ok : Bool
  cli : Sclient
  rq : Circle
  sock : List RecvOut
  sent : List Byte

/-- `_check_stream` from the point where the frame was received and its length
matched. -/
def Sclient.onFrame (cli : Sclient) (rq : Circle) (h : BufHdr) (bufLen : Nat)
    (i : StreamIn) (sock : List RecvOut) : StreamOut :=
  let cli := { cli with bps := cli.bps + bufLen }
  if h.frmSig = resetAll then ⟨true, cli, rq.reset, sock, []⟩
  else if h.syncs then
    let r := (cli.measure h).requeue h rq.length i.time
    let rq := match r.2 with
      | some newopt => rq.forceOptim newopt
      | none => rq
    let q := r.1.sendQos h i.sends
    ⟨true, q.1.countBps i.tick, rq, sock, q.2⟩
  else ⟨true, cli.countBps i.tick, rq, sock, []⟩

/-- `sclient::_check_stream`. -/
def Sclient.checkStream (cli : Sclient) (rq : Circle) (pk : ChunkRef)
    (i : StreamIn) : StreamOut :=
  let r := recvFrame (rq.deref pk) i.recv
  let rq := rq.assign pk r.chunk
  let cli := if r.whole then { cli with srvsync := true } else cli
  if r.ok then cli.onFrame rq r.chunk.hdr r.bufLen i r.sock
  else ⟨false, cli, rq, r.sock, []⟩

/-! ## `_get_data` and `update_frame` -/

/-- One turn of the loop of `_get_data` on a readable socket, with no call of
the player in between: whether the connection is kept, and what is left. -/
def Sclient.getData (cli : Sclient) (rq : Circle) (i : StreamIn) : StreamOut :=
  match rq.qFeedup false with
  | (rq, some pk) =>
      let r := cli.checkStream rq pk i
      { r with rq := r.rq.release (some pk) }
  | (rq, none) =>
      let d := rq.dummy
      let r := cli.checkStream d.1 d.2 i
      { r with ok := true, rq := r.rq.release (some d.2) }

/-- `sclient::update_frame`. -/
def Sclient.updateFrame (cli : Sclient) (rq : Circle) (cur : BufHdr) :
    Sclient :=
  { cli with
    qos :=
      { cli.qos with
        frmSig := syncData
        curSeq := cur.curSeq
        cliQlen := BitVec.ofNat 16 rq.length
        cliQoptim := BitVec.ofNat 16 rq.optim
        cliQsize := BitVec.ofNat 16 rq.maxqsz } }

end RoomSpeaker
