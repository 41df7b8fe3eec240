import Mathlib.Algebra.BigOperators.Group.List.Basic
import Mathlib.Algebra.Order.Field.Basic
import Mathlib.Tactic.Ring
import RoomSpeaker.Foundation.Limiter

/-!
# The discrete PID law

The law is a function of the errors so far: the newest one, their sum and the
last difference.  A history lists the errors with the newest first.

A controller that keeps the last error and a running integral computes the law
without the history; `Accumulates` is what its two variables have to do with it.

## Main results

* `Accumulates.next`, `Accumulates.law` — the two variables follow the history,
  and give the law.
* `Gains.held` — what a controller returns that limits the law and does not follow
  jumps.
-/

namespace RoomSpeaker.Foundation

variable {K : Type*} [Field K]

/-- The time between two errors, and the three gains. -/
structure Gains (K : Type*) where
  dt : K
  kp : K
  ki : K
  kd : K

namespace Gains

variable (g : Gains K)

/-- The law at the newest error of a history. -/
def law : List K → K
  | [] => 0
  | e :: es =>
      g.kp * e + g.ki * (g.dt * (e + es.sum)) + g.kd * ((e - es.headD 0) / g.dt)

/-- The last error and the running integral stand for a history. -/
structure Accumulates (preError integral : K) (es : List K) : Prop where
  last : preError = es.headD 0
  sum : integral = g.dt * es.sum

theorem accumulates_nil : g.Accumulates 0 0 [] where
  last := rfl
  sum := by rw [List.sum_nil, mul_zero]

variable {g} {preError integral : K} {es : List K}

theorem Accumulates.next (h : g.Accumulates preError integral es) (e : K) :
    g.Accumulates e (integral + e * g.dt) (e :: es) where
  last := rfl
  sum := by
    rw [h.sum, List.sum_cons]
    ring

theorem Accumulates.law (h : g.Accumulates preError integral es) (e : K) :
    g.kp * e + g.ki * (integral + e * g.dt) + g.kd * ((e - preError) / g.dt) =
      g.law (e :: es) := by
  rw [h.last, h.sum, Gains.law]
  ring

end Gains

/-! ## The law within limits -/

section

variable [LinearOrder K]

/-- What a limited controller returns that does not follow jumps, and starts
from 0. -/
def Gains.held (g : Gains K) (lo hi bound : K) : List K → K
  | [] => 0
  | e :: es => holdJump bound (held g lo hi bound es) (limit lo hi (g.law (e :: es)))

end

end RoomSpeaker.Foundation
