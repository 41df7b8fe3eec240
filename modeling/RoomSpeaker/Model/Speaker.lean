import RoomSpeaker.Model.Sclient

/-!
# The client program (`sclient::_tmain`, `player::play`)

Two threads share the play queue.  The network thread reconnects, receives
frames into the queue and resynchronises it; the player waits until the queue
is filled, then takes chunks and plays them.  A step is one call on the queue, or
the work a thread does between two such calls on what is its own.

`sclient::update_frame` reads the queue three times under its own mutex; it is
one step here.
-/

namespace RoomSpeaker

open Foundation

/-- Where the network thread is.  A chunk it got from the queue is carried
until it is released. -/
inductive NetPc where
  /-- `_tmain`, not connected -/
  | lost
  /-- `_get_data`, before `select` -/
  | loop
  /-- `_check_stream`, before the receives -/
  | got (pk : ChunkRef)
  /-- a frame was received, with this many payload bytes -/
  | frame (pk : ChunkRef) (bufLen : Nat)
  /-- before `force_optim`, with its argument if it is called -/
  | resync (pk : ChunkRef) (newopt : Option Int)
  /-- before the report is sent -/
  | report (pk : ChunkRef)
  /-- `_check_stream` has returned -/
  | done (pk : ChunkRef) (ok : Bool)
  deriving DecidableEq, Repr

/-- Where the player is. -/
inductive PlayPc where
  /-- before `qlen = _rq->length()` -/
  | loop
  /-- `_fill_q`, before `get_optim` -/
  | fill
  /-- `_fill_q`, before `length()==0` -/
  | fillEmpty (qoptim : Nat)
  /-- `_fill_q`, before `length()>qoptim` -/
  | fillEnough (qoptim : Nat)
  /-- before `q_consume` -/
  | consume
  /-- holds a chunk, before `_play` -/
  | hold (pk : ChunkRef)
  /-- has played the chunk and cleared its header -/
  | played (pk : ChunkRef) (hdr : BufHdr)
  /-- before `update_frame` -/
  | update (hdr : BufHdr)
  deriving DecidableEq, Repr

/-- The program: the shared queue, the client object, and the two threads with
the player's local variables. -/
structure Speaker where
  rq : Circle
  cli : Sclient
  net : NetPc
  play : PlayPc
  filling : Bool
  fillingsz : Nat

/-- `main`: the queue is reserved and half of it asked for, the threads start. -/
def Speaker.init (chunks chunk : Nat) (tick : BitVec 64) (time : Int) :
    Speaker where
  rq := (Circle.reserve chunks chunk).setOptimPerc cliSyncPercent
  cli := Sclient.new tick time
  net := .lost
  play := .loop
  filling := true
  fillingsz := qAlmostEmpty

/-! ## The network thread -/

/-- What the environment decides for a step of the network thread: whether
`s4connect` succeeds, whether `select` reports the socket, and the inputs of
`_check_stream`. -/
structure NetIn where
  up : Bool
  ready : Bool
  stream : StreamIn

def Speaker.netStep (s : Speaker) (i : NetIn) : Speaker :=
  match s.net with
  | .lost => if i.up then { s with net := .loop } else s
  | .loop =>
      if i.ready then
        match s.rq.qFeedup false with
        | (rq, some pk) => { s with rq := rq, net := .got pk }
        | (rq, none) => { s with rq := rq.dummy.1, net := .got rq.dummy.2 }
      else s
  | .got pk =>
      let r := recvFrame (s.rq.deref pk) i.stream.recv
      { s with
        rq := s.rq.assign pk r.chunk
        cli := if r.whole then { s.cli with srvsync := true } else s.cli
        net := if r.ok then .frame pk r.bufLen else .done pk false }
  | .frame pk bufLen =>
      let h := (s.rq.deref pk).hdr
      let cli := { s.cli with bps := s.cli.bps + bufLen }
      if h.frmSig = resetAll then
        { s with rq := s.rq.reset, cli := cli, net := .done pk true }
      else if h.syncs then
        let q := (cli.measure h).requeue h s.rq.length i.stream.time
        { s with cli := q.1, net := .resync pk q.2 }
      else
        { s with cli := cli.countBps i.stream.tick, net := .done pk true }
  | .resync pk newopt =>
      { s with
        rq := match newopt with
          | some n => s.rq.forceOptim n
          | none => s.rq
        net := .report pk }
  | .report pk =>
      let q := s.cli.sendQos (s.rq.deref pk).hdr i.stream.sends
      { s with cli := q.1.countBps i.stream.tick, net := .done pk true }
  | .done pk ok =>
      { s with
        rq := s.rq.release (some pk)
        net := match pk, ok with
          | .slot _, false => .lost
          | _, _ => .loop }

/-! ## The player -/

/-- The chunk after `_play`: its length and signature are cleared. -/
def Chunk.clear (k : Chunk) : Chunk :=
  { k with hdr := { k.hdr with bufLen := 0, frmSig := 0 } }

def Speaker.playStep (s : Speaker) : Speaker :=
  match s.play with
  | .loop =>
      if s.rq.length < s.fillingsz ∨ s.filling = true then
        { s with play := .fill }
      else { s with fillingsz := qAlmostEmpty, play := .consume }
  | .fill => { s with play := .fillEmpty s.rq.optim }
  | .fillEmpty qoptim =>
      { s with
        filling := s.filling || decide (s.rq.length = 0)
        play := .fillEnough qoptim }
  | .fillEnough qoptim =>
      { s with
        filling := s.filling && decide (s.rq.length ≤ qoptim)
        fillingsz := qoptim
        play := .loop }
  | .consume =>
      match s.rq.qConsume with
      | (rq, some pk) => { s with rq := rq, play := .hold pk }
      | (rq, none) => { s with rq := rq, play := .loop }
  | .hold pk =>
      { s with
        rq := s.rq.assign pk (s.rq.deref pk).clear
        play := .played pk (s.rq.deref pk).hdr }
  | .played pk hdr =>
      { s with rq := s.rq.release (some pk), play := .update hdr }
  | .update hdr =>
      { s with cli := s.cli.updateFrame s.rq hdr, play := .loop }

/-! ## Runs -/

/-- A step of one of the threads. -/
inductive SpkOp where
  | net (i : NetIn)
  | play

def Speaker.step (s : Speaker) : SpkOp → Speaker
  | .net i => s.netStep i
  | .play => s.playStep

end RoomSpeaker
