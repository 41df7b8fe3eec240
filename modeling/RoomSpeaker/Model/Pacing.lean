import Mathlib.Algebra.Order.Floor.Defs
import Mathlib.Data.Rat.Floor
import RoomSpeaker.Model.Pid
import RoomSpeaker.Model.Server

/-!
# The pacing of the server loop (`srv/main.cpp`)

At the end of a turn the loop sleeps for what is left of the time its chunk
plays.  When the pilot's queue is off its optimum the controller makes the sleep
shorter.

Ticks are 64-bit and wrap; a `double` is a rational number.  A division and a
conversion to an unsigned type give nothing where C++ does not define them:
for a divisor 0, and for a value that is negative or too big.
-/

namespace RoomSpeaker

open Foundation

def bitsAo : Nat := 16
def channelsAo : Nat := 2

/-- `sleep_opt`. -/
def sleepOpt : Nat :=
  1000 * ((1000 * tcpSndLen) / (sampleAo * channelsAo * (bitsAo / 8)))

/-! ## Real arithmetic -/

/-- A division of `double`s. -/
def divide (x y : ℚ) : Option ℚ := if y = 0 then none else some (x / y)

/-- The conversion of a `double` to an unsigned type of `w` bits. -/
def toUnsigned (w : Nat) (x : ℚ) : Option (BitVec w) :=
  if 0 ≤ x ∧ x < 2 ^ w then some (BitVec.ofNat w ⌊x⌋₊) else none

/-- `PID::calculate`, which divides by `_dt`. -/
def Pid.calculate? (p : Pid) (setpoint pv : ℚ) : Option (Pid × ℚ) :=
  if p.pimpl.dt = 0 then none else some (p.calculate setpoint pv)

/-! ## The sleep -/

/-- `slploop` by the clock alone. -/
def slploopOf (rt : BitVec 64) : BitVec 64 :=
  if rt.toNat < sleepOpt then BitVec.ofNat 64 sleepOpt - rt else 0xF

/-- `us`, the argument of `usleep`. -/
def usOf (slploop : BitVec 64) : Option (BitVec 32) :=
  (toUnsigned 32 slploop.toNat).map fun us => us + 0xF

/-- The branch of the controller: the controller afterwards and `slploop`. -/
def steer (pid : Pid) (p : Pilot) (slploop : BitVec 64) :
    Option (Pid × BitVec 64) := do
  let curperc ← divide (p.qlen * 100) p.qsz
  let foptim ← divide (p.qoptim * 100) p.qsz
  let (pid, xpidv) ← pid.calculate? foptim curperc
  let pidv ← divide (100 - xpidv) 100
  let slploop ← toUnsigned 64 (slploop.toNat * pidv)
  return (pid, slploop)

/-- The end of a turn, from the ticks, the pilot fields and the value of
`pool`: the controller afterwards and the sleep. -/
def pace (pid : Pid) (t1 t2 : BitVec 64) (p : Pilot) (frmdiff : Int) :
    Option (Pid × BitVec 32) := do
  let rt := t2 - t1
  let slploop := slploopOf rt
  let (pid, slploop) ←
    if frmdiff ≠ 0 ∧ p.qsz ≠ 0 ∧ rt.toNat < sleepOpt then
      steer pid p slploop
    else some (pid, slploop)
  let us ← usOf slploop
  return (pid, us)

/-! ## The loop -/

/-- The variables of `main` that a turn hands on to the next. -/
structure PacedServer where
  server : Server
  pid : Pid

/-- `T`, `P`, `I` and `D`. -/
def pidT : ℚ := sleepOpt / 1000000
def pidP : ℚ := 20 / 100
def pidI : ℚ := 30 / 100
def pidD : ℚ := 1 / 1000

def PacedServer.init : PacedServer :=
  ⟨Server.init, Pid.new pidT 99 1 pidP pidI pidD⟩

/-- The inputs of a turn; `t2` is the second reading of the clock. -/
structure PacedIn extends LoopIn where
  t2 : BitVec 64

/-- How a turn goes on after the pipe is read: it leaves the loop or waits for
data, both with the controller reset, or it sends the chunk and sleeps. -/
inductive TurnEnd where
  | idle
  | slept (us : Option (BitVec 32))
  deriving DecidableEq, Repr

/-- One turn of the loop.  Where the pacing is undefined nothing is said about
the controller afterwards, so it is left as it is. -/
def PacedServer.turn (s : PacedServer) (i : PacedIn) : PacedServer × TurnEnd :=
  if s.server.alive then
    let sent := s.server.send i.toLoopIn
    if sent.2.2 then
      let server := sent.1.serve i.pool
      let frmdiff := (sent.1.srv.pool i.pool).2
      let r := pace s.pid i.t1 i.t2 server.srv.pilot frmdiff
      (⟨server, (r.map Prod.fst).getD s.pid⟩, .slept (r.map Prod.snd))
    else (⟨sent.1, s.pid.reset pidT pidP pidI pidD⟩, .idle)
  else (s, .idle)

def PacedServer.step (s : PacedServer) (i : PacedIn) : PacedServer :=
  (s.turn i).1

end RoomSpeaker
