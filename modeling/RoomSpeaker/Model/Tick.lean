import RoomSpeaker.Model.TcpSrv

/-!
# The tick source (`srvq.h`, `srv/main.cpp`)

`tick_count` adds the seconds of the monotonic clock, in thousandths, to its
nanoseconds divided by the argument: 1000 where microseconds are meant, 1000000,
the default, where milliseconds are.  The sum is a `size_t`.

The server loop reads the clock once in each turn and hands the tick to `qsend`,
which compares it with that of the last `SYNC_DATA` round.
-/

namespace RoomSpeaker

open Foundation

/-- `struct timespec`, as `clock_gettime` fills it in. -/
structure Timespec where
  sec : Int
  nsec : Nat
  valid : nsec < 1000000000

/-- The nanoseconds of a reading. -/
def Timespec.total (t : Timespec) : Int := t.sec * 1000000000 + t.nsec

/-- The sum in `tick_count`, as a number. -/
def tickValue (nsecs : Nat) (t : Timespec) : Int :=
  t.sec * 1000 + (t.nsec / nsecs : Nat)

/-- `tick_count`. -/
def tickCount (nsecs : Nat) (t : Timespec) : BitVec 64 :=
  BitVec.ofInt 64 (tickValue nsecs t)

/-! ## The rounds of `qsend` -/

/-- The server, with the last reading of the clock, and the reading of the last
`SYNC_DATA` round since a client was accepted. -/
structure Paced where
  srv : TcpSrv
  now : Timespec
  latest : Option Timespec

def Paced.init (start : Timespec) : Paced := ⟨TcpSrv.init, start, none⟩

/-- A call made by the server loop; a `qsend` with the reading for its
`usecs`. -/
inductive PacedOp where
  | qsend (t1 : Timespec) (i : QsendIn)
  | pool (i : PoolIn)

/-- A `qsend` at this reading is a `SYNC_DATA` round. -/
def Paced.syncs (s : Paced) (t1 : Timespec) : Bool :=
  decide ((s.srv.qsendHead (tickCount 1000 t1)).2 = syncData)

def Paced.step (s : Paced) : PacedOp → Paced
  | .qsend t1 i =>
      { srv := (s.srv.qsend 0 { i with usecs := tickCount 1000 t1 }).srv
        now := t1
        latest := if s.syncs t1 then some t1 else s.latest }
  | .pool i =>
      { s with
        srv := (s.srv.pool i).1
        latest :=
          if i.selectErr = none ∧ i.conn ≠ none then none else s.latest }

end RoomSpeaker
