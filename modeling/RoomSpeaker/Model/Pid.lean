import Mathlib.Algebra.Order.Ring.Rat
import RoomSpeaker.Foundation.Limiter

/-!
# The PID controller (`pidaim.h`, `pidaim.cpp`, `pider.h`, `pider.cpp`)

The server and the client have a controller each.  They differ in the order of
the constructor's arguments, in `reset`, and in what the server does about jumps.

The arithmetic is exact: a `double` is a rational number here.
-/

namespace RoomSpeaker

open Foundation

/-- `PIDImpl`. -/
structure PidImpl where
  dt : ℚ
  max : ℚ
  min : ℚ
  kp : ℚ
  kd : ℚ
  ki : ℚ
  preError : ℚ
  integral : ℚ
  prev : ℚ
  deriving DecidableEq, Repr

namespace PidImpl

/-- `PIDImpl::PIDImpl`; `_prev` has its initializer in the class. -/
def new (dt max min kp kd ki : ℚ) : PidImpl where
  dt := dt
  max := max
  min := min
  kp := kp
  kd := kd
  ki := ki
  preError := 0
  integral := 0
  prev := 0

/-- The sum of the three terms. -/
def raw (p : PidImpl) (setpoint pv : ℚ) : ℚ :=
  let error := setpoint - pv
  let pout := p.kp * error
  let iout := p.ki * (p.integral + error * p.dt)
  let dout := p.kd * ((error - p.preError) / p.dt)
  pout + iout + dout

/-- The output restricted to max and min. -/
def command (p : PidImpl) (setpoint pv : ℚ) : ℚ :=
  limit p.min p.max (p.raw setpoint pv)

/-- `PIDImpl::calculate`.  An output more than 20 away from the previous one is
replaced by that one. -/
def calculate (p : PidImpl) (setpoint pv : ℚ) : PidImpl × ℚ :=
  let error := setpoint - pv
  let output := holdJump 20 p.prev (p.command setpoint pv)
  ({ p with
      preError := error
      integral := p.integral + error * p.dt
      prev := output },
    output)

end PidImpl

/-- `PID`. -/
structure Pid where
  pimpl : PidImpl
  dt : ℚ
  max : ℚ
  min : ℚ
  kp : ℚ
  kd : ℚ
  ki : ℚ
  deriving DecidableEq, Repr

namespace Pid

/-- `PID::PID`. -/
def new (dt max min kp ki kd : ℚ) : Pid where
  pimpl := PidImpl.new dt max min kp kd ki
  dt := dt
  max := max
  min := min
  kp := kp
  kd := kd
  ki := ki

/-- `PID::calculate`. -/
def calculate (p : Pid) (setpoint pv : ℚ) : Pid × ℚ :=
  let r := p.pimpl.calculate setpoint pv
  ({ p with pimpl := r.1 }, r.2)

/-- `PID::reset`. -/
def reset (p : Pid) (dt kp ki kd : ℚ) : Pid :=
  { p with
    dt := dt
    kp := kp
    ki := ki
    kd := kd
    pimpl := PidImpl.new dt p.max p.min kp kd ki }

/-! ## Sequences of calls -/

/-- The controller after the first `n` calls of `calculate`, with the set points
and process values given. -/
def after (p : Pid) (ins : ℕ → ℚ × ℚ) : ℕ → Pid
  | 0 => p
  | n + 1 => ((p.after ins n).calculate (ins n).1 (ins n).2).1

/-- The value call `n` returns, counted from 0. -/
def out (p : Pid) (ins : ℕ → ℚ × ℚ) (n : ℕ) : ℚ :=
  ((p.after ins n).calculate (ins n).1 (ins n).2).2

/-- The restricted output in call `n`. -/
def command (p : Pid) (ins : ℕ → ℚ × ℚ) (n : ℕ) : ℚ :=
  (p.after ins n).pimpl.command (ins n).1 (ins n).2

end Pid

/-! ## The client's controller -/

/-- `PIDImpl` of the client. -/
structure PiderImpl where
  dt : ℚ
  max : ℚ
  min : ℚ
  kp : ℚ
  kd : ℚ
  ki : ℚ
  preError : ℚ
  integral : ℚ
  deriving DecidableEq, Repr

/-- `PIDImpl::PIDImpl`. -/
def PiderImpl.new (dt max min kp kd ki : ℚ) : PiderImpl where
  dt := dt
  max := max
  min := min
  kp := kp
  kd := kd
  ki := ki
  preError := 0
  integral := 0

/-- `PIDImpl::calculate`. -/
def PiderImpl.calculate (p : PiderImpl) (setpoint pv : ℚ) : PiderImpl × ℚ :=
  let error := setpoint - pv
  let pout := p.kp * error
  let integral := p.integral + error * p.dt
  let iout := p.ki * integral
  let derivative := (error - p.preError) / p.dt
  let dout := p.kd * derivative
  let output := limit p.min p.max (pout + iout + dout)
  ({ p with preError := error, integral := integral }, output)

/-- `PID` of the client. -/
structure Pider where
  pimpl : PiderImpl
  deriving DecidableEq, Repr

namespace Pider

/-- `PID::PID`: the derivative gain comes before the integral gain. -/
def new (dt max min kp kd ki : ℚ) : Pider := ⟨PiderImpl.new dt max min kp kd ki⟩

/-- `PID::calculate`. -/
def calculate (p : Pider) (setpoint pv : ℚ) : Pider × ℚ :=
  let r := p.pimpl.calculate setpoint pv
  (⟨r.1⟩, r.2)

/-- The controller after the first `n` calls of `calculate`. -/
def after (p : Pider) (ins : ℕ → ℚ × ℚ) : ℕ → Pider
  | 0 => p
  | n + 1 => ((p.after ins n).calculate (ins n).1 (ins n).2).1

/-- The value call `n` returns. -/
def out (p : Pider) (ins : ℕ → ℚ × ℚ) (n : ℕ) : ℚ :=
  ((p.after ins n).calculate (ins n).1 (ins n).2).2

end Pider

end RoomSpeaker
